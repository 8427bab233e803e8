import LoxLang.Proofs.Run.Binding
import LoxLang.Proofs.Run.Plain

/-!
# What a machine consists of

A machine holds values, in variables, in fields and in what it is doing, and trees that are still to
be run.  A step makes few values itself (`Machine.Makes`), and takes all other values and trees from
those that are there.  So a property of plain values that everything has which is made is a property
of all values ever (`Machine.Everywhere.step`).  And because no declaration and no assignment names
`this`, a scope in which a method was bound to an instance keeps that instance for good
(`Store.Opens`).
-/

namespace LoxLang

/-! ## Scopes with an instance -/

/-- A store comes to another one, in which there are new scopes that were made for something, and
perhaps new instances.  The scopes that there were keep their `this`, and those that were made for a
method that was bound to an instance have that instance. -/
structure Store.Opens (old : Store) (opened : List Opening) (new : Store) : Prop where
  scopes : new.scopes.size = old.scopes.size + opened.length
  objects : old.objects.size ≤ new.objects.size
  this : ∀ scope < old.scopes.size, new.binding? scope thisName = old.binding? scope thisName
  bound : ∀ {index : Nat} {function : Closure} {object : Instance},
    opened[index]? = some (.bound function object) →
      function.env.head? = some (old.scopes.size + index) ∧
        new.binding? (old.scopes.size + index) thisName = some (.object object)

namespace Store

theorem opens_of_scopes {old new : Store} (hscopes : new.scopes = old.scopes)
    (hobjects : old.objects.size ≤ new.objects.size) : old.Opens [] new := by
  constructor
  · rw [hscopes]
    rfl
  · exact hobjects
  · intro scope _
    rw [binding?, hscopes, binding?]
  · intro index function object hopening
    cases hopening

theorem opens_newScope (store : Store) {opening : Opening} {bindings : Bindings}
    (h : ∀ function object, opening = .bound function object →
      function.env.head? = some store.scopes.size ∧
        bindings.get? thisName = some (.object object)) :
    store.Opens [opening] (store.newScope bindings).1 := by
  constructor
  · exact Array.size_push _
  · exact Nat.le_refl _
  · intro scope hlt
    have hne : scope ≠ (store.newScope bindings).2 := Nat.ne_of_lt hlt
    rw [binding?_newScope, if_neg hne]
  · intro index function object hopening
    cases index with
    | zero =>
        obtain ⟨henv, hthis⟩ := h function object (Option.some.inj hopening)
        refine ⟨henv, ?_⟩
        rw [binding?_newScope, if_pos (by rfl), hthis]
    | succ index => cases hopening

/-- Giving a variable with another name a value. -/
theorem opens_define (store : Store) (scope : ScopeId) {name : String} (hname : name ≠ thisName)
    (value : Value) : store.Opens [] (store.define scope name value) := by
  constructor
  · exact store.size_define scope name value
  · exact Nat.le_refl _
  · intro other _
    rw [binding?_define, if_neg fun h => hname h.2.2.symm]
  · intro index function object hopening
    cases hopening

namespace Opens

variable {first second third : Store} {opened opened' : List Opening}

theorem refl (store : Store) : store.Opens [] store :=
  opens_of_scopes rfl (Nat.le_refl _)

theorem trans (h : first.Opens opened second) (h' : second.Opens opened' third) :
    first.Opens (opened ++ opened') third := by
  constructor
  · rw [h'.scopes, h.scopes, List.length_append, Nat.add_assoc]
  · exact Nat.le_trans h.objects h'.objects
  · intro scope hlt
    rw [h'.this scope (h.scopes ▸ Nat.lt_add_right _ hlt), h.this scope hlt]
  · intro index function object hopening
    by_cases hindex : index < opened.length
    · rw [List.getElem?_append_left hindex] at hopening
      obtain ⟨henv, hthis⟩ := h.bound hopening
      refine ⟨henv, ?_⟩
      rw [h'.this _ (by rw [h.scopes]; omega), hthis]
    · rw [List.getElem?_append_right (Nat.le_of_not_lt hindex)] at hopening
      have hsum : second.scopes.size + (index - opened.length) = first.scopes.size + index := by
        rw [h.scopes]
        omega
      exact hsum ▸ h'.bound hopening

end Opens

end Store

namespace World

variable (world : World)

theorem opens_define (env : Env) {name : String} (hname : name ≠ thisName) (value : Value) :
    world.store.Opens [] (world.define env name value).store := by
  cases env with
  | nil => exact .refl _
  | cons scope outer => exact world.store.opens_define scope hname value

theorem opens_bind (method : Closure) (object : Instance) :
    world.store.Opens [.bound (world.bind method object).2 object]
      (world.bind method object).1.store := by
  have hscope : world.store.Opens [.bound (world.bind method object).2 object]
      (world.store.newScope [(thisName, .object object)]).1 := by
    refine world.store.opens_newScope ?_
    rintro function other ⟨⟩
    exact ⟨rfl, rfl⟩
  exact hscope.trans (Store.opens_of_scopes rfl (Nat.le_refl _))

theorem opens_property (object : Instance) (name : Token) :
    world.store.Opens (world.openedByProperty object name)
      (world.property object name).1.store := by
  rw [property, openedByProperty]
  cases world.store.field? object.identity name.lexeme with
  | some value => exact .refl _
  | none =>
      cases object.ownClass.findMethod? name.lexeme with
      | some method => exact world.opens_bind method object
      | none => exact .refl _

theorem opens_superMethod (env : Env) (occurrence : Occurrence) (method : Token) :
    world.store.Opens (world.openedBySuper env occurrence method)
      (world.superMethod env occurrence method).1.store := by
  rcases world.superMethod_cases env occurrence method with
    ⟨fault, hresult, hopened⟩ | ⟨distance, superclass, object, found, -, -, -, -, hresult, hopened⟩
  · rw [hresult, hopened]
    exact .refl _
  · rw [hresult, hopened]
    exact world.opens_bind found object

theorem opens_closeAll (env : Env) (methods : List FunctionDecl) :
    world.store.Opens [] (world.closeAll env methods).1.store := by
  induction methods generalizing world with
  | nil => exact .refl _
  | cons method rest ih =>
      have hclose : world.store.Opens [] (world.close env method method.isInitializer).1.store :=
        Store.opens_of_scopes rfl (Nat.le_refl _)
      exact hclose.trans (ih (world.close env method method.isInitializer).1)

theorem opens_makeClass (env : Env) (name : String) (methods : List FunctionDecl) :
    world.store.Opens [] (world.makeClass env name none methods).1.store :=
  (world.opens_closeAll env methods).trans (Store.opens_of_scopes rfl (Nat.le_refl _))

theorem opens_makeSubclass (env : Env) (name : Token) (clause : Occurrence)
    (superclass : Class) (methods : List FunctionDecl) (outer : Env) :
    world.store.Opens [.superclass name clause methods superclass outer]
      (world.makeClass env name.lexeme (some superclass) methods).1.store := by
  let scope := world.store.newScope [(superName, .classValue superclass)]
  have hscope : world.store.Opens [.superclass name clause methods superclass outer] scope.1 :=
    world.store.opens_newScope nofun
  have hmethods := (world.withStore scope.1).opens_closeAll (scope.2 :: env) methods
  exact hscope.trans (hmethods.trans (Store.opens_of_scopes rfl (Nat.le_refl _)))

end World

/-! ## Values -/

/-- All variables and fields have values with a property. -/
structure World.Everywhere (P : Value → Prop) (world : World) : Prop where
  bindings : ∀ {scope name value}, world.store.binding? scope name = some value → P value
  fields : ∀ {object name value}, world.store.field? object name = some value → P value

/-- The value that there is at some moment, if there is one, has a property. -/
def Control.Everywhere (P : Value → Prop) : Control → Prop
  | .value result => P result
  | .completed (.returned result) => P result
  | _ => True

/-- The values that a frame keeps have a property. -/
def Frame.Everywhere (P : Value → Prop) : Frame → Prop
  | .binaryRight _ left => P left
  | .argument _ called done _ => P called ∧ ∀ value ∈ done, P value
  | .setValue _ object => P (.object object)
  | .activation call =>
      P (.function call.callee) ∧ ∀ object ∈ call.made, P (.object object)
  | _ => True

/-- All values that a machine holds have a property. -/
structure Machine.Everywhere (P : Value → Prop) (machine : Machine) : Prop where
  world : machine.world.Everywhere P
  control : machine.control.Everywhere P
  frames : ∀ frame ∈ machine.frames, frame.Everywhere P

/-! ## Trees -/

/-- The parameters and the body of a function are formed. -/
def FunctionDecl.Formed (declaration : FunctionDecl) : Prop :=
  declaration.Spells Token.Genuine ∧
    ∀ statement ∈ declaration.body, statement.Formed Token.Genuine

/-- What is to be done next is formed. -/
def Control.Formed : Control → Prop
  | .evaluate expression => expression.Formed Token.Genuine
  | .execute statement => statement.Formed Token.Genuine
  | .run statements => ∀ statement ∈ statements, statement.Formed Token.Genuine
  | _ => True

/-- The trees that a frame keeps are formed. -/
def Frame.Formed : Frame → Prop
  | .binaryLeft _ right => right.Formed Token.Genuine
  | .logical _ right => right.Formed Token.Genuine
  | .assign target => target.name.Names Token.Genuine
  | .callee _ arguments => ∀ argument ∈ arguments, argument.Formed Token.Genuine
  | .argument _ _ _ rest => ∀ argument ∈ rest, argument.Formed Token.Genuine
  | .setObject _ value => value.Formed Token.Genuine
  | .define name => name.Names Token.Genuine
  | .choice thenBranch elseBranch =>
      thenBranch.Formed Token.Genuine ∧ ∀ branch ∈ elseBranch, branch.Formed Token.Genuine
  | .loopTest condition body => condition.Formed Token.Genuine ∧ body.Formed Token.Genuine
  | .loopBody condition body => condition.Formed Token.Genuine ∧ body.Formed Token.Genuine
  | .sequence rest => ∀ statement ∈ rest, statement.Formed Token.Genuine
  | _ => True

/-- All trees of a machine are formed. -/
structure Machine.Formed (machine : Machine) : Prop where
  control : machine.control.Formed
  frames : ∀ frame ∈ machine.frames, frame.Formed

/-! ## What is made -/

/-- The values that the next step makes, apart from plain ones. -/
inductive Machine.Makes (machine : Machine) : Value → Prop
  | function {declaration : FunctionDecl} : machine.control = .execute (.function declaration) →
      Makes machine (.function (machine.world.close machine.env declaration false).2)
  | plainClass {name : Token} {methods : List FunctionDecl} :
      machine.control = .execute (.classDecl name none methods) →
      Makes machine (.classValue ((machine.world.define machine.env name.lexeme .nil).makeClass
        machine.env name.lexeme none methods).2)
  | subclass {name : Token} {clause : Occurrence} {superclass : Class}
      {methods : List FunctionDecl} :
      machine.control = .execute (.classDecl name (some clause) methods) →
      machine.world.read machine.env clause = .ok (.classValue superclass) →
      Makes machine (.classValue ((machine.world.define machine.env name.lexeme .nil).makeClass
        machine.env name.lexeme (some superclass) methods).2)
  | object {paren : Token} {ownClass : Class} {arguments : List Value} :
      machine.calling? = some (paren, .classValue ownClass, arguments) →
      callObstacle? (.classValue ownClass) arguments machine.depth = none →
      Makes machine (.object (machine.world.construct ownClass).2)
  | bound {function : Closure} {object : Instance} : .bound function object ∈ machine.opened →
      Makes machine (.function function)

/-! ## Worlds -/

namespace World.Everywhere

variable {P : Value → Prop} {world : World} (h : world.Everywhere P)

include h

theorem of_store {other : World} (hscopes : other.store.scopes = world.store.scopes)
    (hobjects : other.store.objects = world.store.objects) : other.Everywhere P := by
  constructor
  · intro scope name value hvalue
    rw [Store.binding?, hscopes] at hvalue
    exact h.bindings hvalue
  · intro object name value hvalue
    rw [Store.field?, hobjects] at hvalue
    exact h.fields hvalue

theorem set {value : Value} (hvalue : P value) (scope : ScopeId) (name : String) :
    (world.set scope name value).Everywhere P := by
  refine ⟨?_, h.fields⟩
  intro other key found hfound
  rw [show (world.set scope name value).store.binding? other key = _ from
    world.store.binding?_define scope other name key value] at hfound
  split at hfound
  · cases hfound
    exact hvalue
  · exact h.bindings hfound

theorem define {value : Value} (hvalue : P value) (env : Env) (name : String) :
    (world.define env name value).Everywhere P := by
  cases env with
  | nil => exact h
  | cons scope outer => exact h.set hvalue scope name

theorem setField {value : Value} (hvalue : P value) (object : Nat) (name : String) :
    (world.withStore (world.store.setField object name value)).Everywhere P := by
  refine ⟨h.bindings, ?_⟩
  intro other key found hfound
  have hchanged := world.store.field?_setField object other name key value
  rw [World.withStore, hchanged] at hfound
  split at hfound
  · cases hfound
    exact hvalue
  · exact h.fields hfound

theorem newScope {bindings : Bindings}
    (hbindings : ∀ name value, bindings.get? name = some value → P value) :
    (world.withStore (world.store.newScope bindings).1).Everywhere P := by
  refine ⟨?_, h.fields⟩
  intro scope name value hvalue
  rw [World.withStore, Store.binding?_newScope] at hvalue
  split at hvalue
  · exact hbindings name value hvalue
  · exact h.bindings hvalue

theorem construct (ownClass : Class) : (world.construct ownClass).1.Everywhere P := by
  refine ⟨h.bindings, ?_⟩
  intro object name value hvalue
  rw [show (world.construct ownClass).1.store.field? object name = _ from
    world.store.field?_newObject object name] at hvalue
  exact h.fields hvalue

theorem bind {object : Instance} (hobject : P (.object object)) (method : Closure) :
    (world.bind method object).1.Everywhere P := by
  have hscope : (world.withStore (world.store.newScope
      [(thisName, .object object)]).1).Everywhere P := by
    refine h.newScope fun name value hvalue => ?_
    have hmem : (name, value) ∈ [(thisName, Value.object object)] := Scene.mem_of_lookup hvalue
    cases List.mem_singleton.1 hmem
    exact hobject
  exact hscope.of_store rfl rfl

theorem getAt? {env : Env} {distance : Nat} {name : String} {value : Value}
    (hvalue : world.store.getAt? env distance name = some value) : P value := by
  obtain ⟨scope, hbinding⟩ := Store.exists_binding?_of_getAt? hvalue
  exact h.bindings hbinding

theorem read {env : Env} {occurrence : Occurrence} {value : Value}
    (hread : world.read env occurrence = .ok value) : P value := by
  obtain ⟨scope, hbinding⟩ := World.exists_binding?_of_read hread
  exact h.bindings hbinding

theorem property {object : Instance} (hobject : P (.object object)) (name : Token)
    (hmade : ∀ function, .bound function object ∈ world.openedByProperty object name →
      P (.function function)) :
    (world.property object name).1.Everywhere P ∧
      ∀ value, (world.property object name).2 = .ok value → P value := by
  rw [World.openedByProperty] at hmade
  rw [World.property]
  cases hfield : world.store.field? object.identity name.lexeme with
  | some value =>
      refine ⟨h, ?_⟩
      rintro found ⟨⟩
      exact h.fields hfield
  | none =>
      rw [hfield] at hmade
      dsimp only at hmade ⊢
      cases hfound : object.ownClass.findMethod? name.lexeme with
      | none => exact ⟨h, fun value hvalue => by cases hvalue⟩
      | some method =>
          rw [hfound] at hmade
          refine ⟨h.bind hobject method, ?_⟩
          rintro value ⟨⟩
          exact hmade _ List.mem_cons_self

theorem superMethod (env : Env) (occurrence : Occurrence) (method : Token)
    (hmade : ∀ function object,
      .bound function object ∈ world.openedBySuper env occurrence method →
        P (.function function)) :
    (world.superMethod env occurrence method).1.Everywhere P ∧
      ∀ value, (world.superMethod env occurrence method).2 = .ok value → P value := by
  rcases world.superMethod_cases env occurrence method with
    ⟨fault, hresult, -⟩ | ⟨distance, superclass, object, found, -, -, hobject, -, hresult, hopened⟩
  · rw [hresult]
    exact ⟨h, fun value hvalue => by cases hvalue⟩
  · rw [hresult]
    refine ⟨h.bind (h.getAt? hobject) found, ?_⟩
    rintro value ⟨⟩
    exact hmade _ object (hopened ▸ List.mem_cons_self)

theorem closeAll (env : Env) (methods : List FunctionDecl) :
    (world.closeAll env methods).1.Everywhere P := by
  induction methods generalizing world with
  | nil => exact h
  | cons method rest ih =>
      have hclose : (world.close env method method.isInitializer).1.Everywhere P :=
        h.of_store rfl rfl
      exact ih hclose

theorem makeClass {superclass : Option Class}
    (hsuperclass : ∀ above ∈ superclass, P (.classValue above)) (env : Env) (name : String)
    (methods : List FunctionDecl) :
    (world.makeClass env name superclass methods).1.Everywhere P := by
  cases superclass with
  | none => exact (h.closeAll env methods).of_store rfl rfl
  | some superclass =>
      have hscope : (world.withStore (world.store.newScope
          [(superName, .classValue superclass)]).1).Everywhere P := by
        refine h.newScope ?_
        intro key value hvalue
        have hmem : (key, value) ∈ [(superName, Value.classValue superclass)] :=
          Scene.mem_of_lookup hvalue
        cases List.mem_singleton.1 hmem
        exact hsuperclass superclass rfl
      exact (hscope.closeAll _ methods).of_store rfl rfl

end World.Everywhere

/-! ## Steps -/

/-- A property of all plain values, and of functions only if they are formed. -/
structure Value.Admissible (P : Value → Prop) : Prop where
  plain : ∀ value, value.IsPlain → P value
  formed : ∀ function, P (.function function) → function.declaration.Formed

namespace Machine

/-- What a machine holds apart from what it is about to do. -/
structure Rests (P : Value → Prop) (machine : Machine) : Prop where
  world : machine.world.Everywhere P
  frames : ∀ frame ∈ machine.frames, frame.Everywhere P ∧ frame.Formed

/-- A machine comes from a store, with scopes that have been made. -/
structure Comes (P : Value → Prop) (old : Store) (opened : List Opening) (next : Machine) :
    Prop where
  opens : old.Opens opened next.world.store
  everywhere : next.Everywhere P
  formed : next.Formed

variable {P : Value → Prop} {machine : Machine}

theorem Rests.of_world (h : machine.Rests P) {world : World} (hworld : world.Everywhere P)
    (control : Control) (env : Env) (depth : Nat) :
    Rests P ⟨control, machine.frames, env, depth, world⟩ :=
  ⟨hworld, h.frames⟩

theorem Rests.push (h : machine.Rests P) (frame : Frame) (hframe : frame.Everywhere P)
    (hformed : frame.Formed) (control : Control) (env : Env) (depth : Nat) :
    Rests P ⟨control, frame :: machine.frames, env, depth, machine.world⟩ :=
  ⟨h.world, List.forall_mem_cons.2 ⟨⟨hframe, hformed⟩, h.frames⟩⟩

theorem Rests.comes {old : Store} {opened : List Opening} (h : machine.Rests P)
    (hopens : old.Opens opened machine.world.store) (hcontrol : machine.control.Everywhere P)
    (hformed : machine.control.Formed) : Comes P old opened machine where
  opens := hopens
  everywhere := ⟨h.world, hcontrol, fun frame hframe => (h.frames frame hframe).1⟩
  formed := ⟨hformed, fun frame hframe => (h.frames frame hframe).2⟩

section

variable (h : machine.Rests P)

include h

/-- Other things to do with everything else as it is. -/
theorem comes_turn (control : Control) (hcontrol : control.Everywhere P)
    (hformed : control.Formed) (env : Env) (depth : Nat) :
    Comes P machine.world.store [] ⟨control, machine.frames, env, depth, machine.world⟩ :=
  (h.of_world h.world control env depth).comes (.refl _) hcontrol hformed

theorem comes_fail (fault : RuntimeFault) :
    Comes P machine.world.store [] (machine.fail fault) :=
  comes_turn h (.failed (.fault fault)) trivial trivial _ _

theorem comes_settle {result : Except RuntimeFault Value}
    (hresult : ∀ value, result = .ok value → P value) :
    Comes P machine.world.store [] (machine.settle result) := by
  cases result with
  | ok value => exact comes_turn h (.value value) (hresult value rfl) trivial _ _
  | error fault => exact comes_fail h fault

theorem comes_evaluating {expression : Expr} (hexpression : expression.Formed Token.Genuine)
    {frame : Frame} (hframe : frame.Everywhere P) (hformed : frame.Formed) :
    Comes P machine.world.store [] (machine.evaluating expression frame) :=
  (h.push frame hframe hformed _ _ _).comes (.refl _) trivial hexpression

/-- A body is run in a scope of its own, in which the parameters have the arguments as values. -/
theorem comes_enter {callee : Closure} (hcallee : P (.function callee))
    (hformed : callee.declaration.Formed) {arguments : List Value}
    (harguments : ∀ argument ∈ arguments, P argument) {made : Option Instance}
    (hmade : ∀ object ∈ made, P (.object object)) :
    Comes P machine.world.store [.call callee] (machine.enter callee arguments made) := by
  have hbindings : ∀ name value, (Bindings.ofList ((callee.declaration.params.map
      Token.lexeme).zip arguments)).get? name = some value → P value := by
    intro name value hvalue
    exact harguments value (List.of_mem_zip (Bindings.mem_of_get?_ofList hvalue)).2
  have hrests : (machine.enter callee arguments made).Rests P :=
    ⟨h.world.newScope hbindings, List.forall_mem_cons.2 ⟨⟨⟨hcallee, hmade⟩, trivial⟩, h.frames⟩⟩
  exact hrests.comes (machine.world.store.opens_newScope nofun) trivial hformed.2

variable (hP : Value.Admissible P)

include hP

theorem comes_call {callee : Value} (hcallee : P callee) {arguments : List Value}
    (harguments : ∀ argument ∈ arguments, P argument)
    (hbound : ∀ function object, .bound function object ∈ machine.openedByCall callee arguments →
      P (.function function))
    (hobject : ∀ ownClass, callee = .classValue ownClass →
      callObstacle? callee arguments machine.depth = none →
        P (.object (machine.world.construct ownClass).2)) (paren : Token) :
    Comes P machine.world.store (machine.openedByCall callee arguments)
      (machine.call paren callee arguments) := by
  unfold call
  unfold openedByCall at hbound ⊢
  cases hobstacle : callObstacle? callee arguments machine.depth with
  | some cause => exact comes_fail h _
  | none =>
      cases callee with
      | builtin native =>
          cases native with
          | clock =>
              have hworld : machine.world.tick.1.Everywhere P := h.world.of_store rfl rfl
              have hrests := h.of_world hworld (.value (.number machine.world.tick.2)) machine.env
                machine.depth
              exact hrests.comes (.refl _) (hP.plain _ trivial) trivial
      | function closure =>
          exact comes_enter h hcallee (hP.formed closure hcallee) harguments nofun
      | classValue ownClass =>
          have hmade := hobject ownClass rfl hobstacle
          have hworld := h.world.construct ownClass
          have hopens : machine.world.store.Opens []
              (machine.world.construct ownClass).1.store :=
            Store.opens_of_scopes rfl ((Nat.le_succ _).trans_eq (Array.size_push _).symm)
          rw [hobstacle] at hbound
          dsimp only at hbound ⊢
          cases hinitializer : ownClass.initializer? with
          | none => exact (h.of_world hworld _ _ _).comes hopens hmade trivial
          | some method =>
              rw [hinitializer] at hbound
              let made := machine.world.construct ownClass
              have hclosure : P (.function (made.1.bind method made.2).2) :=
                hbound _ made.2 List.mem_cons_self
              have hrests := h.of_world (hworld.bind hmade method) machine.control machine.env
                machine.depth
              have hinstance : ∀ object ∈ some made.2, P (.object object) := by
                rintro object ⟨⟩
                exact hmade
              have hentered := comes_enter hrests hclosure (hP.formed _ hclosure) harguments
                hinstance
              exact ⟨(hopens.trans (made.1.opens_bind method made.2)).trans hentered.opens,
                hentered.everywhere, hentered.formed⟩
      | _ => exact comes_fail h _

theorem comes_nextArgument {callee : Value} (hcallee : P callee) {done : List Value}
    (hdone : ∀ value ∈ done, P value) {rest : List Expr}
    (hrest : ∀ argument ∈ rest, argument.Formed Token.Genuine)
    (hbound : ∀ function object,
      .bound function object ∈ machine.openedByNext callee done rest → P (.function function))
    (hobject : ∀ ownClass, callee = .classValue ownClass → rest = [] →
      callObstacle? callee done.reverse machine.depth = none →
        P (.object (machine.world.construct ownClass).2)) (paren : Token) :
    Comes P machine.world.store (machine.openedByNext callee done rest)
      (machine.nextArgument paren callee done rest) := by
  cases rest with
  | nil =>
      exact comes_call h hP hcallee (fun value hvalue => hdone value (List.mem_reverse.1 hvalue))
        hbound (fun ownClass hclass => hobject ownClass hclass rfl) paren
  | cons argument rest =>
      obtain ⟨hargument, hrest⟩ := List.forall_mem_cons.1 hrest
      exact comes_evaluating h hargument ⟨hcallee, hdone⟩ hrest

theorem comes_evaluate {expression : Expr} (hexpression : expression.Formed Token.Genuine)
    (hbound : ∀ function object,
      .bound function object ∈ machine.openedByExpression expression → P (.function function)) :
    Comes P machine.world.store (machine.openedByExpression expression)
      (machine.evaluate expression) := by
  have hoperands {operand : Expr} (hoperand : operand ∈ expression.operands) :
      operand.Formed Token.Genuine := hexpression.operand hoperand
  cases expression with
  | literal value =>
      have hliteral := hP.plain _ (Value.isPlain_ofLiteral value)
      exact comes_turn h (.value (.ofLiteral value)) hliteral trivial _ _
  | grouping inner =>
      exact comes_turn h (.evaluate inner) trivial (hoperands List.mem_cons_self) _ _
  | unary operator operand =>
      exact comes_evaluating h (hoperands List.mem_cons_self) trivial trivial
  | binary operator left right =>
      exact comes_evaluating h (hoperands List.mem_cons_self) trivial
        (hoperands (List.mem_cons_of_mem _ List.mem_cons_self))
  | logical operator left right =>
      exact comes_evaluating h (hoperands List.mem_cons_self) trivial
        (hoperands (List.mem_cons_of_mem _ List.mem_cons_self))
  | «variable» occurrence => exact comes_settle h fun value hvalue => h.world.read hvalue
  | assign target value =>
      exact comes_evaluating h (hoperands List.mem_cons_self) trivial hexpression.spells
  | call callee paren arguments =>
      exact comes_evaluating h (hoperands List.mem_cons_self) trivial
        fun argument hargument => hoperands (List.mem_cons_of_mem _ hargument)
  | get object name => exact comes_evaluating h (hoperands List.mem_cons_self) trivial trivial
  | set object name value =>
      exact comes_evaluating h (hoperands List.mem_cons_self) trivial
        (hoperands (List.mem_cons_of_mem _ List.mem_cons_self))
  | thisRef occurrence => exact comes_settle h fun value hvalue => h.world.read hvalue
  | superRef occurrence method =>
      obtain ⟨hworld, hresult⟩ := h.world.superMethod machine.env occurrence method hbound
      have hrests := h.of_world hworld machine.control machine.env machine.depth
      have hcomes := comes_settle hrests hresult
      have hopens := (machine.world.opens_superMethod machine.env occurrence method).trans
        hcomes.opens
      rw [List.append_nil] at hopens
      exact ⟨hopens, hcomes.everywhere, hcomes.formed⟩

/-- The name of a class has two values, one after the other, neither of which is `this`. -/
theorem comes_declareClass {name : Token} (hname : name.Names Token.Genuine)
    {superclass : Option Class} (hsuperclass : ∀ above ∈ superclass, P (.classValue above))
    {methods : List FunctionDecl} {opened : List Opening}
    (hopens : (machine.world.define machine.env name.lexeme .nil).store.Opens opened
      ((machine.world.define machine.env name.lexeme .nil).makeClass machine.env name.lexeme
        superclass methods).1.store)
    (hmade : P (.classValue ((machine.world.define machine.env name.lexeme .nil).makeClass
      machine.env name.lexeme superclass methods).2)) :
    Comes P machine.world.store opened (machine.declareClass name superclass methods) := by
  have hnamed := machine.world.opens_define machine.env hname.ne.1 .nil
  have hworld := (h.world.define (hP.plain .nil trivial) machine.env name.lexeme).makeClass
    hsuperclass machine.env name.lexeme methods
  have hleads := hnamed.trans hopens
  unfold declareClass
  dsimp only
  split
  · next scope _ =>
      let made := (machine.world.define machine.env name.lexeme .nil).makeClass machine.env
        name.lexeme superclass methods
      have hset := hleads.trans (made.1.store.opens_define scope hname.ne.1 (.classValue made.2))
      rw [List.append_nil] at hset
      exact (h.of_world (hworld.set hmade scope name.lexeme) _ _ _).comes hset trivial trivial
  · exact (h.of_world hworld _ _ _).comes hleads trivial trivial

theorem comes_execute {statement : Stmt} (hcontrol : machine.control = .execute statement)
    (hstatement : statement.Formed Token.Genuine)
    (hmakes : ∀ value, machine.Makes value → P value) :
    Comes P machine.world.store (machine.openedByStatement statement)
      (machine.execute statement) := by
  have hexpressions {expression : Expr} (hexpression : expression ∈ statement.expressions) :
      expression.Formed Token.Genuine := hstatement.expression hexpression
  cases statement with
  | block body =>
      have hrests : (machine.execute (.block body)).Rests P :=
        ⟨h.world.newScope (fun name value hvalue => by cases hvalue),
          List.forall_mem_cons.2 ⟨⟨trivial, trivial⟩, h.frames⟩⟩
      exact hrests.comes (machine.world.store.opens_newScope nofun) trivial
        fun inner hinner => hstatement.enclosed hinner
  | classDecl name superclass methods =>
      have hname : name.Names Token.Genuine := hstatement.spells.1
      cases superclass with
      | none =>
          show Comes P machine.world.store [] (machine.declareClass name none methods)
          exact comes_declareClass h hP hname (fun above habove => by cases habove)
            (World.opens_makeClass _ _ _ _) (hmakes _ (.plainClass hcontrol))
      | some clause =>
          dsimp only [execute, openedByStatement]
          cases hread : machine.world.read machine.env clause with
          | error fault => exact comes_fail h fault
          | ok value =>
              cases value with
              | classValue superclass =>
                  have hsuperclass : ∀ above ∈ some superclass, P (.classValue above) := by
                    rintro above ⟨⟩
                    exact h.world.read hread
                  have hopens := World.opens_makeSubclass
                    (machine.world.define machine.env name.lexeme .nil) machine.env name clause
                    superclass methods machine.env
                  exact comes_declareClass h hP hname hsuperclass hopens
                    (hmakes _ (.subclass hcontrol hread))
              | _ => exact comes_fail h _
  | expression value => exact comes_evaluating h (hexpressions List.mem_cons_self) trivial trivial
  | function declaration =>
      let closed := machine.world.close machine.env declaration false
      have hname : declaration.name.Names Token.Genuine := hstatement.spells.1
      have hworld : closed.1.Everywhere P := h.world.of_store rfl rfl
      have hdefined := hworld.define (hmakes _ (.function hcontrol)) machine.env
        declaration.name.lexeme
      have hclose : machine.world.store.Opens [] closed.1.store :=
        Store.opens_of_scopes rfl (Nat.le_refl _)
      exact (h.of_world hdefined _ _ _).comes
        (hclose.trans (closed.1.opens_define machine.env hname.ne.1 _)) trivial trivial
  | conditional condition thenBranch elseBranch =>
      refine comes_evaluating h (hexpressions List.mem_cons_self) trivial ⟨?_, ?_⟩
      · exact hstatement.branch List.mem_cons_self
      · intro branch hbranch
        exact hstatement.branch (List.mem_cons_of_mem _ (Option.mem_toList.2 hbranch))
  | print value => exact comes_evaluating h (hexpressions List.mem_cons_self) trivial trivial
  | returnValue keyword value =>
      cases value with
      | none => exact comes_turn h (.completed (.returned .nil)) (hP.plain .nil trivial) trivial _ _
      | some value => exact comes_evaluating h (hexpressions List.mem_cons_self) trivial trivial
  | varDecl name initializer =>
      have hname : name.Names Token.Genuine := hstatement.spells
      cases initializer with
      | none =>
          have hworld := h.world.define (hP.plain .nil trivial) machine.env name.lexeme
          exact (h.of_world hworld _ _ _).comes
            (machine.world.opens_define machine.env hname.ne.1 .nil) trivial trivial
      | some value => exact comes_evaluating h (hexpressions List.mem_cons_self) trivial hname
  | whileLoop condition body =>
      exact comes_evaluating h (hexpressions List.mem_cons_self) trivial
        ⟨hexpressions List.mem_cons_self, hstatement.branch List.mem_cons_self⟩

end

/-- A value is handed to the innermost frame. -/
theorem comes_receive (hP : Value.Admissible P) {value : Value} {frame : Frame}
    {stay : List Frame} {env : Env} {depth : Nat} {world : World}
    (h : Rests P ⟨.value value, frame :: stay, env, depth, world⟩) (hvalue : P value)
    (hmakes : ∀ made, Makes ⟨.value value, frame :: stay, env, depth, world⟩ made → P made) :
    Comes P world.store (openedByValue ⟨.value value, frame :: stay, env, depth, world⟩ value frame)
      (receive ⟨.value value, stay, env, depth, world⟩ value frame) := by
  obtain ⟨⟨hframe, hformed⟩, hstay⟩ := List.forall_mem_cons.1 h.frames
  let popped : Machine := ⟨.value value, stay, env, depth, world⟩
  have hrests : popped.Rests P := ⟨h.world, hstay⟩
  cases frame with
  | unary operator =>
      refine comes_settle hrests fun result hresult => hP.plain _ ?_
      exact Value.isPlain_of_unary (of_mapError_eq_ok hresult)
  | binaryLeft operator right => exact comes_evaluating hrests hformed hvalue trivial
  | binaryRight operator left =>
      refine comes_settle hrests fun result hresult => hP.plain _ ?_
      exact Value.isPlain_of_binary (of_mapError_eq_ok hresult)
  | logical operator right =>
      dsimp only [receive]
      split
      · exact comes_turn hrests (.value value) hvalue trivial _ _
      · exact comes_turn hrests (.evaluate right) trivial hformed _ _
  | assign target =>
      dsimp only [receive]
      split
      · next scope _ =>
          have hname : target.name.Names Token.Genuine := hformed
          exact (hrests.of_world (h.world.set hvalue scope target.name.lexeme) _ _ _).comes
            (world.store.opens_define scope hname.ne.1 value) hvalue trivial
      · exact comes_fail hrests _
  | callee paren arguments =>
      refine comes_nextArgument hrests hP hvalue (fun other hother => by cases hother) hformed
        (fun function object hbound => hmakes _ (.bound hbound)) ?_ paren
      rintro ownClass rfl rfl hobstacle
      exact hmakes _ (.object rfl hobstacle)
  | argument paren callee done rest =>
      refine comes_nextArgument hrests hP hframe.1 (List.forall_mem_cons.2 ⟨hvalue, hframe.2⟩)
        hformed (fun function object hbound => hmakes _ (.bound hbound)) ?_ paren
      rintro ownClass rfl rfl hobstacle
      exact hmakes _ (.object rfl hobstacle)
  | get name =>
      cases value with
      | object object =>
          obtain ⟨hworld, hresult⟩ := h.world.property hvalue name
            fun function hbound => hmakes _ (.bound hbound)
          have hcomes := comes_settle (hrests.of_world hworld popped.control env depth) hresult
          have hopens := (world.opens_property object name).trans hcomes.opens
          rw [List.append_nil] at hopens
          exact ⟨hopens, hcomes.everywhere, hcomes.formed⟩
      | _ => exact comes_fail hrests _
  | setObject name expression =>
      cases value with
      | object object => exact comes_evaluating hrests hformed hvalue trivial
      | _ => exact comes_fail hrests _
  | setValue name object =>
      have hopens : world.store.Opens []
          (world.store.setField object.identity name.lexeme value) :=
        Store.opens_of_scopes rfl (Nat.le_of_eq Array.size_modify.symm)
      exact (hrests.of_world (h.world.setField hvalue object.identity name.lexeme) _ _ _).comes
        hopens hvalue trivial
  | expression => exact comes_turn hrests (.completed .normal) trivial trivial _ _
  | print =>
      dsimp only [receive]
      have hworld : (world.print value).1.Everywhere P := h.world.of_store rfl rfl
      split
      · next printed heq =>
          obtain rfl : (world.print value).1 = printed := congrArg Prod.fst heq
          exact (hrests.of_world hworld _ _ _).comes (.refl _) trivial trivial
      · next printed heq =>
          obtain rfl : (world.print value).1 = printed := congrArg Prod.fst heq
          exact (hrests.of_world hworld _ _ _).comes (.refl _) trivial trivial
  | define name =>
      have hname : name.Names Token.Genuine := hformed
      exact (hrests.of_world (h.world.define hvalue env name.lexeme) _ _ _).comes
        (world.opens_define env hname.ne.1 value) trivial trivial
  | choice thenBranch elseBranch =>
      dsimp only [receive]
      split
      · exact comes_turn hrests (.execute thenBranch) trivial hformed.1 _ _
      · cases elseBranch with
        | none => exact comes_turn hrests (.completed .normal) trivial trivial _ _
        | some elseBranch =>
            exact comes_turn hrests (.execute elseBranch) trivial (hformed.2 _ rfl) _ _
  | loopTest condition body =>
      dsimp only [receive]
      split
      · exact (hrests.push (.loopBody condition body) trivial hformed _ _ _).comes
          (.refl _) trivial hformed.2
      · exact comes_turn hrests (.completed .normal) trivial trivial _ _
  | returning => exact comes_turn hrests (.completed (.returned value)) hvalue trivial _ _
  | _ => exact h.comes (.refl _) hvalue trivial

/-- The end of a statement is handed to the innermost frame. -/
theorem comes_finish (hP : Value.Admissible P) {completion : Completion} {frame : Frame}
    {stay : List Frame} {env : Env} {depth : Nat} {world : World}
    (h : Rests P ⟨.completed completion, frame :: stay, env, depth, world⟩)
    (hcompletion : (Control.completed completion).Everywhere P) :
    Comes P world.store [] (finish ⟨.completed completion, stay, env, depth, world⟩ completion
      frame) := by
  obtain ⟨⟨hframe, hformed⟩, hstay⟩ := List.forall_mem_cons.1 h.frames
  let popped : Machine := ⟨.completed completion, stay, env, depth, world⟩
  have hrests : popped.Rests P := ⟨h.world, hstay⟩
  cases frame with
  | sequence rest =>
      cases completion with
      | normal => exact comes_turn hrests (.run rest) trivial hformed _ _
      | returned value => exact hrests.comes (.refl _) hcompletion trivial
  | block outer => exact comes_turn hrests (.completed completion) hcompletion trivial outer depth
  | loopBody condition body =>
      cases completion with
      | normal => exact comes_evaluating hrests hformed.1 trivial hformed
      | returned value => exact hrests.comes (.refl _) hcompletion trivial
  | activation ended =>
      dsimp only [finish, leave]
      split
      · split
        · next bound hbound =>
            refine comes_turn hrests (.value _) ?_ trivial _ _
            cases hmade : ended.made with
            | none => exact h.world.getAt? hbound
            | some object => exact hframe.2 object hmade
        · exact comes_turn hrests (.failed _) trivial trivial _ _
      · cases completion with
        | normal => exact comes_turn hrests (.value .nil) (hP.plain .nil trivial) trivial _ _
        | returned value => exact comes_turn hrests (.value value) hcompletion trivial _ _
  | _ => exact h.comes (.refl _) hcompletion trivial

theorem comes_unwind {failure : Failure} {frame : Frame} {stay : List Frame} {env : Env}
    {depth : Nat} {world : World}
    (h : Rests P ⟨.failed failure, frame :: stay, env, depth, world⟩) :
    Comes P world.store [] (unwind ⟨.failed failure, stay, env, depth, world⟩ frame) := by
  have hrests : Rests P ⟨.failed failure, stay, env, depth, world⟩ :=
    ⟨h.world, (List.forall_mem_cons.1 h.frames).2⟩
  cases frame <;> exact comes_turn hrests (.failed failure) trivial trivial _ _

/-- A step takes all values from those that there are, apart from plain ones and those that it
makes, and all trees. -/
theorem comes_step (hP : Value.Admissible P) (h : machine.Everywhere P) (hformed : machine.Formed)
    (hmakes : ∀ value, machine.Makes value → P value) :
    Comes P machine.world.store machine.opened machine.step := by
  have hrests : machine.Rests P :=
    ⟨h.world, fun frame hframe => ⟨h.frames frame hframe, hformed.frames frame hframe⟩⟩
  obtain ⟨control, frames, env, depth, world⟩ := machine
  have hcontrol := h.control
  have htrees := hformed.control
  cases control with
  | evaluate expression =>
      exact comes_evaluate hrests hP htrees fun function object hbound => hmakes _ (.bound hbound)
  | execute statement => exact comes_execute hrests hP rfl htrees hmakes
  | run statements =>
      cases statements with
      | nil => exact comes_turn hrests (.completed .normal) trivial trivial _ _
      | cons statement rest =>
          obtain ⟨hfirst, hrest⟩ := List.forall_mem_cons.1 htrees
          exact (hrests.push (.sequence rest) trivial hrest _ _ _).comes (.refl _) trivial
            hfirst
  | value value =>
      cases frames with
      | nil => exact hrests.comes (.refl _) hcontrol trivial
      | cons frame frames => exact comes_receive hP hrests hcontrol hmakes
  | completed completion =>
      cases frames with
      | nil => exact hrests.comes (.refl _) hcontrol trivial
      | cons frame frames => exact comes_finish hP hrests hcontrol
  | failed failure =>
      cases frames with
      | nil => exact hrests.comes (.refl _) trivial trivial
      | cons frame frames => exact comes_unwind hrests

end Machine

end LoxLang
