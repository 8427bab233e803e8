import LoxLang.Proofs.Run.World

/-!
# What steps do to variables

Most steps leave the scopes that there are as they are, and make new ones behind them if anything.
A variable only gets another value when a declaration binds its name in the innermost scope, or when
it is assigned to.
-/

namespace LoxLang

/-! ## Scopes that stay -/

/-- The scopes of a store are in another one as they were, in front of all others. -/
def Store.StaysIn (old new : Store) : Prop :=
  old.scopes.toList <+: new.scopes.toList

namespace Store

variable {first second third : Store}

theorem staysIn_of_scopes (h : second.scopes = first.scopes) : first.StaysIn second := by
  rw [StaysIn, h]

theorem staysIn_newScope (store : Store) (bindings : Bindings) :
    store.StaysIn (store.newScope bindings).1 := by
  rw [StaysIn, newScope, Array.toList_push]
  exact List.prefix_append _ _

namespace StaysIn

theorem refl (store : Store) : store.StaysIn store :=
  List.prefix_rfl

theorem trans (h : first.StaysIn second) (h' : second.StaysIn third) : first.StaysIn third :=
  List.IsPrefix.trans h h'

theorem size_le (h : first.StaysIn second) : first.scopes.size ≤ second.scopes.size :=
  List.IsPrefix.length_le h

theorem binding?_eq (h : first.StaysIn second) {scope : ScopeId}
    (hlt : scope < first.scopes.size) (name : String) :
    second.binding? scope name = first.binding? scope name := by
  have hscope : second.scopes.toList[scope]? = first.scopes.toList[scope]? := by
    obtain ⟨made, hmade⟩ := h
    rw [← hmade, List.getElem?_append_left hlt]
  rw [Array.getElem?_toList, Array.getElem?_toList] at hscope
  rw [binding?, hscope, binding?]

end StaysIn

end Store

namespace World

variable (world : World)

theorem staysIn_bind (method : Closure) (object : Instance) :
    world.store.StaysIn (world.bind method object).1.store :=
  world.store.staysIn_newScope _

theorem staysIn_closeAll (env : Env) (methods : List FunctionDecl) :
    world.store.StaysIn (world.closeAll env methods).1.store := by
  induction methods generalizing world with
  | nil => exact .refl _
  | cons method rest ih => exact ih (world.close env method method.isInitializer).1

theorem staysIn_makeClass (env : Env) (name : String) (superclass : Option Class)
    (methods : List FunctionDecl) :
    world.store.StaysIn (world.makeClass env name superclass methods).1.store := by
  cases superclass with
  | none => exact world.staysIn_closeAll env methods
  | some superclass =>
      let scope := world.store.newScope [(superName, .classValue superclass)]
      have hmethods := (world.withStore scope.1).staysIn_closeAll (scope.2 :: env) methods
      exact (world.store.staysIn_newScope _).trans hmethods

theorem staysIn_property (object : Instance) (name : Token) :
    world.store.StaysIn (world.property object name).1.store := by
  rw [property]
  split
  · exact .refl _
  · split
    · next method _ => exact world.staysIn_bind method object
    · exact .refl _

theorem staysIn_superMethod (env : Env) (occurrence : Occurrence) (method : Token) :
    world.store.StaysIn (world.superMethod env occurrence method).1.store := by
  rcases world.superMethod_cases env occurrence method with
    ⟨fault, hresult, -⟩ | ⟨distance, superclass, object, found, -, -, -, -, hresult, -⟩
  · rw [hresult]
    exact .refl _
  · rw [hresult]
    exact world.staysIn_bind found object

/-- A declaration changes the variable of the innermost scope and nothing else. -/
theorem binding?_define (env : Env) (name : String) (value : Value) {other : ScopeId}
    (hother : other < world.store.scopes.size) (key : String) :
    (world.define env name value).store.binding? other key =
      if env.head? = some other ∧ key = name then some value
      else world.store.binding? other key := by
  cases env with
  | nil => simp [define, withStore, Store.defineIn]
  | cons scope outer =>
      show (world.store.define scope name value).binding? other key = _
      rw [Store.binding?_define]
      by_cases h : other = scope
      · subst h
        simp [hother]
      · simp [h, Ne.symm h]

theorem size_define (env : Env) (name : String) (value : Value) :
    (world.define env name value).store.scopes.size = world.store.scopes.size := by
  cases env with
  | nil => rfl
  | cons scope outer => exact Store.size_define _ _ _ _

end World

namespace Machine

variable (machine : Machine)

theorem staysIn_call (paren : Token) (callee : Value) (arguments : List Value) :
    machine.world.store.StaysIn (machine.call paren callee arguments).world.store := by
  unfold call
  split
  · exact .refl _
  · cases callee with
    | builtin native =>
        cases native with
        | clock => exact .refl _
    | function closure => exact machine.world.store.staysIn_newScope _
    | classValue ownClass =>
        dsimp only
        split
        · exact .refl _
        · next method _ =>
            let made := machine.world.construct ownClass
            exact (made.1.staysIn_bind method made.2).trans (Store.staysIn_newScope _ _)
    | _ => exact .refl _

theorem staysIn_nextArgument (paren : Token) (callee : Value) (done : List Value)
    (rest : List Expr) :
    machine.world.store.StaysIn (machine.nextArgument paren callee done rest).world.store := by
  cases rest with
  | nil => exact machine.staysIn_call paren callee done.reverse
  | cons argument rest => exact .refl _

theorem staysIn_evaluate (expression : Expr) :
    machine.world.store.StaysIn (machine.evaluate expression).world.store := by
  cases expression with
  | «variable» occurrence =>
      rw [evaluate, world_settle]
      exact .refl _
  | thisRef occurrence =>
      rw [evaluate, world_settle]
      exact .refl _
  | superRef occurrence method =>
      rw [evaluate, world_settle]
      exact machine.world.staysIn_superMethod _ _ _
  | _ => exact .refl _

/-! ## Declarations -/

/-- The next step binds the name of a declaration. -/
inductive Binds (machine : Machine) : Stmt → Prop
  | plain {name : Token} :
      machine.control = .execute (.varDecl name none) → Binds machine (.varDecl name none)
  | initialized {name : Token} {initializer : Expr} {value : Value} {frames : List Frame} :
      machine.control = .value value → machine.frames = .define name :: frames →
      Binds machine (.varDecl name (some initializer))
  | function {declaration : FunctionDecl} :
      machine.control = .execute (.function declaration) → Binds machine (.function declaration)
  | classDecl {name : Token} {methods : List FunctionDecl} :
      machine.control = .execute (.classDecl name none methods) →
      Binds machine (.classDecl name none methods)
  | subclass {name : Token} {clause : Occurrence} {methods : List FunctionDecl}
      {superclass : Class} :
      machine.control = .execute (.classDecl name (some clause) methods) →
      machine.world.read machine.env clause = .ok (.classValue superclass) →
      Binds machine (.classDecl name (some clause) methods)

variable {machine}

theorem step_of_execute {statement : Stmt} (hcontrol : machine.control = .execute statement) :
    machine.step = machine.execute statement := by
  obtain ⟨control, frames, env, depth, world⟩ := machine
  obtain rfl : control = .execute statement := hcontrol
  rfl

/-- A class is declared once its superclass has been read. -/
theorem step_subclass {name : Token} {clause : Occurrence} {methods : List FunctionDecl}
    {superclass : Class}
    (hcontrol : machine.control = .execute (.classDecl name (some clause) methods))
    (hread : machine.world.read machine.env clause = .ok (.classValue superclass)) :
    machine.step = machine.declareClass name (some superclass) methods := by
  rw [step_of_execute hcontrol]
  dsimp only [execute]
  rw [hread]

/-- The name of a class is bound in the innermost scope before the class is made, and so it is there
when the class is assigned to it. -/
theorem declareClass_eq {scope : ScopeId} (hscope : machine.env.head? = some scope)
    (hlt : scope < machine.world.store.scopes.size) (name : Token) (superclass : Option Class)
    (methods : List FunctionDecl) :
    machine.declareClass name superclass methods =
      { machine with
        control := .completed .normal
        world :=
          let made := (machine.world.define machine.env name.lexeme .nil).makeClass machine.env
            name.lexeme superclass methods
          made.1.set scope name.lexeme (.classValue made.2) } := by
  let named := machine.world.define machine.env name.lexeme .nil
  let made := named.makeClass machine.env name.lexeme superclass methods
  have hsize : scope < named.store.scopes.size := by
    rw [World.size_define]
    exact hlt
  have hbound : (made.1.store.binding? scope name.lexeme).isSome := by
    rw [(named.staysIn_makeClass _ _ _ _).binding?_eq hsize, World.binding?_define _ _ _ _ hlt,
      if_pos ⟨hscope, rfl⟩]
    rfl
  have howner : made.1.store.owner machine.env name = .ok scope := by
    obtain ⟨outer, henv⟩ := List.head?_eq_some_iff.1 hscope
    rw [henv, Store.owner, Store.owner?, List.find?_cons_of_pos (by exact hbound)]
  unfold declareClass
  dsimp only
  rw [howner]

/-- A class declaration binds the name of the class and no other. -/
theorem binding?_declareClass {scope : ScopeId} (hscope : machine.env.head? = some scope)
    (hlt : scope < machine.world.store.scopes.size) (name : Token) (superclass : Option Class)
    (methods : List FunctionDecl) {other : ScopeId}
    (hother : other < machine.world.store.scopes.size) (key : String) :
    (machine.declareClass name superclass methods).world.store.binding? other key =
      if machine.env.head? = some other ∧ key = name.lexeme then
        some (.classValue ((machine.world.define machine.env name.lexeme .nil).makeClass machine.env
          name.lexeme superclass methods).2)
      else machine.world.store.binding? other key := by
  let named := machine.world.define machine.env name.lexeme .nil
  have hmade := named.staysIn_makeClass machine.env name.lexeme superclass methods
  have hsize : named.store.scopes.size = machine.world.store.scopes.size :=
    World.size_define _ _ _ _
  have hlt' := Nat.lt_of_lt_of_le (hsize ▸ hlt) hmade.size_le
  rw [declareClass_eq hscope hlt]
  dsimp only [World.set, World.withStore]
  rw [Store.binding?_define]
  by_cases hsame : machine.env.head? = some other ∧ key = name.lexeme
  · have heq : other = scope := Option.some.inj (hsame.1.symm.trans hscope)
    rw [if_pos ⟨hlt', heq, hsame.2⟩, if_pos hsame]
  · have hne : ¬(other = scope ∧ key = name.lexeme) := fun h => hsame ⟨h.1 ▸ hscope, h.2⟩
    rw [if_neg fun h => hne h.2, if_neg hsame, hmade.binding?_eq (hsize ▸ hother),
      World.binding?_define _ _ _ _ hother, if_neg hsame]

/-! ## Steps -/

/-- The next step gives the variable of a scope a value: it binds the name of a declaration there,
or it assigns to an occurrence of the name for which it is the scope. -/
inductive Changes (machine : Machine) (scope : ScopeId) (name : String) : Prop
  | declares {statement : Stmt} :
      machine.Binds statement → statement.declared? = some name →
      machine.env.head? = some scope → Changes machine scope name
  | assigns {target : Occurrence} {value : Value} {frames : List Frame} :
      machine.control = .value value → machine.frames = .assign target :: frames →
      target.name.lexeme = name → machine.world.target machine.env target = .ok scope →
      Changes machine scope name

/-- A step leaves a variable as it is, unless it gives it a value. -/
def LeavesTo (machine next : Machine) (scope : ScopeId) (name : String) : Prop :=
  machine.Changes scope name ∨
    next.world.store.binding? scope name = machine.world.store.binding? scope name

section

variable {other : ScopeId} {key : String}

theorem leavesTo_of_declares {statement : Stmt} (h : machine.Binds statement) {name : Token}
    (hname : statement.declared? = some name.lexeme) {next : Machine} {value : Value}
    (hnext : next.world.store.binding? other key =
      if machine.env.head? = some other ∧ key = name.lexeme then some value
      else machine.world.store.binding? other key) : machine.LeavesTo next other key := by
  by_cases hsame : machine.env.head? = some other ∧ key = name.lexeme
  · exact .inl (.declares h (hsame.2 ▸ hname) hsame.1)
  · exact .inr (hnext.trans (if_neg hsame))

variable (hother : other < machine.world.store.scopes.size)

include hother

theorem leavesTo_of_staysIn {next : Machine}
    (h : machine.world.store.StaysIn next.world.store) : machine.LeavesTo next other key :=
  .inr (h.binding?_eq hother key)

theorem leavesTo_execute {scope : ScopeId} (hscope : machine.env.head? = some scope)
    (hlt : scope < machine.world.store.scopes.size) {statement : Stmt}
    (hcontrol : machine.control = .execute statement) :
    machine.LeavesTo (machine.execute statement) other key := by
  have hstays {next : Machine} (h : machine.world.store.StaysIn next.world.store) :
      machine.LeavesTo next other key := leavesTo_of_staysIn hother h
  cases statement with
  | block body => exact hstays (Store.staysIn_newScope _ _)
  | classDecl name superclass methods =>
      cases superclass with
      | none =>
          exact leavesTo_of_declares (.classDecl hcontrol) rfl
            (binding?_declareClass hscope hlt name none methods hother key)
      | some clause =>
          dsimp only [execute]
          split
          · next superclass hread =>
              exact leavesTo_of_declares (.subclass hcontrol hread) rfl
                (binding?_declareClass hscope hlt name (some superclass) methods hother key)
          · exact hstays (.refl _)
          · exact hstays (.refl _)
  | function declaration =>
      let closed := machine.world.close machine.env declaration false
      exact leavesTo_of_declares (.function hcontrol) rfl
        (closed.1.binding?_define machine.env declaration.name.lexeme (.function closed.2) hother
          key)
  | varDecl name initializer =>
      cases initializer with
      | none =>
          exact leavesTo_of_declares (.plain hcontrol) rfl
            (World.binding?_define _ _ _ _ hother key)
      | some value => exact hstays (.refl _)
  | returnValue keyword value => cases value <;> exact hstays (.refl _)
  | _ => exact hstays (.refl _)

theorem leavesTo_receive {value : Value} {frame : Frame} {frames : List Frame}
    (hcontrol : machine.control = .value value) (hframes : machine.frames = frame :: frames) :
    machine.LeavesTo (receive { machine with frames := frames } value frame) other key := by
  have hstays {next : Machine} (h : machine.world.store.StaysIn next.world.store) :
      machine.LeavesTo next other key := leavesTo_of_staysIn hother h
  let taken : Machine := { machine with frames := frames }
  cases frame with
  | unary operator => exact .inr (congrArg (·.store.binding? other key) (taken.world_settle _))
  | binaryRight operator left =>
      exact .inr (congrArg (·.store.binding? other key) (taken.world_settle _))
  | logical operator right =>
      dsimp only [receive]
      split <;> exact hstays (.refl _)
  | assign target =>
      dsimp only [receive]
      split
      · next scope htarget =>
          by_cases hsame : other = scope ∧ key = target.name.lexeme
          · exact .inl (.assigns hcontrol hframes hsame.2.symm (hsame.1 ▸ htarget))
          · refine .inr ?_
            dsimp only [World.set, World.withStore]
            rw [Store.binding?_define, if_neg fun h => hsame h.2]
      · exact hstays (.refl _)
  | callee paren arguments => exact hstays (taken.staysIn_nextArgument paren value [] arguments)
  | argument paren callee done rest =>
      exact hstays (taken.staysIn_nextArgument paren callee (value :: done) rest)
  | get name =>
      cases value with
      | object object =>
          refine hstays ?_
          dsimp only [receive]
          rw [world_settle]
          exact machine.world.staysIn_property object name
      | _ => exact hstays (.refl _)
  | setObject name expression => cases value <;> exact hstays (.refl _)
  | setValue name object => exact hstays (.refl _)
  | print =>
      have hprint : (machine.world.print value).1.store = machine.world.store := rfl
      dsimp only [receive]
      split
      · next printed heq =>
          rw [heq] at hprint
          exact hstays (Store.staysIn_of_scopes (congrArg Store.scopes hprint))
      · next printed heq =>
          rw [heq] at hprint
          exact hstays (Store.staysIn_of_scopes (congrArg Store.scopes hprint))
  | define name =>
      -- The frame does not tell the initializer, nor does it matter.
      have hbinds : machine.Binds (.varDecl name (some (.literal .nil))) :=
        .initialized hcontrol hframes
      exact leavesTo_of_declares hbinds rfl (World.binding?_define _ _ _ _ hother key)
  | choice thenBranch elseBranch =>
      dsimp only [receive]
      split
      · exact hstays (.refl _)
      · cases elseBranch <;> exact hstays (.refl _)
  | loopTest condition body =>
      dsimp only [receive]
      split <;> exact hstays (.refl _)
  | _ => exact hstays (.refl _)

/-- A step only gives a variable a value if a declaration binds it or an assignment sets it. -/
theorem leavesTo_step
    (hscope : ∀ statement, machine.control = .execute statement →
      ∃ scope, machine.env.head? = some scope ∧ scope < machine.world.store.scopes.size) :
    machine.LeavesTo machine.step other key := by
  obtain ⟨control, frames, env, depth, world⟩ := machine
  cases control with
  | evaluate expression => exact leavesTo_of_staysIn hother (staysIn_evaluate _ expression)
  | execute statement =>
      obtain ⟨scope, hhead, hlt⟩ := hscope statement rfl
      exact leavesTo_execute hother hhead hlt rfl
  | run statements => cases statements <;> exact .inr rfl
  | value value =>
      cases frames with
      | nil => exact .inr rfl
      | cons frame frames => exact leavesTo_receive hother rfl rfl
  | completed completion =>
      cases frames with
      | nil => exact .inr rfl
      | cons frame frames =>
          exact .inr (congrArg (·.store.binding? other key) (world_finish _ completion frame))
  | failed failure =>
      cases frames with
      | nil => exact .inr rfl
      | cons frame frames => cases frame <;> exact .inr rfl

end

/-- The step that binds the name of a declaration leaves a variable for it in the innermost
scope. -/
theorem Binds.isSome_binding? {statement : Stmt} (h : machine.Binds statement) {name : String}
    (hname : statement.declared? = some name) {scope : ScopeId}
    (hscope : machine.env.head? = some scope) (hlt : scope < machine.world.store.scopes.size) :
    (machine.step.world.store.binding? scope name).isSome := by
  obtain ⟨control, frames, env, depth, world⟩ := machine
  have hdefine (made : World) (hmade : made.store.scopes = world.store.scopes) (value : Value) :
      ((made.define env name value).store.binding? scope name).isSome := by
    rw [World.binding?_define _ _ _ _ (hmade ▸ hlt), if_pos ⟨hscope, rfl⟩]
    rfl
  cases h with
  | plain hcontrol =>
      cases hcontrol
      cases hname
      exact hdefine world rfl .nil
  | initialized hcontrol hframes =>
      cases hcontrol
      cases hframes
      cases hname
      exact hdefine world rfl _
  | @function declaration hcontrol =>
      cases hcontrol
      cases hname
      let closed := world.close env declaration false
      exact hdefine closed.1 rfl (.function closed.2)
  | @classDecl className methods hcontrol =>
      cases hname
      rw [step_of_execute hcontrol]
      dsimp only [execute]
      rw [binding?_declareClass hscope hlt _ _ _ hlt, if_pos ⟨hscope, rfl⟩]
      rfl
  | @subclass className clause methods superclass hcontrol hread =>
      cases hname
      rw [step_subclass hcontrol hread, binding?_declareClass hscope hlt _ _ _ hlt,
        if_pos ⟨hscope, rfl⟩]
      rfl

end Machine

end LoxLang
