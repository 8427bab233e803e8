import LoxLang.Proofs.Run.Origins
import LoxLang.Proofs.Run.Restoration

/-!
# Initializers

The call of an initializer leads to the instance to which it was bound, whatever its body does; and
the call of a class leads to a new instance of that class, on which the nearest initializer has run
(`Run.Arises.initializes`).  This holds of programs that have not been resolved too: nothing that a
program can do gives `this` another value in the scope of a method that has been bound.
-/

namespace LoxLang

/-! ## Methods of classes -/

/-- The method that a class has under a name, or else the nearest class above it that has one. -/
inductive Class.Nearest (name : String) : Class → Closure → Prop
  | own {ownClass : Class} {method : Closure} : ownClass.methods.lookup name = some method →
      Nearest name ownClass method
  | inherited {ownClass above : Class} {method : Closure} :
      ownClass.methods.lookup name = none → ownClass.superclass = some above →
      Nearest name above method → Nearest name ownClass method

theorem Class.Nearest.findMethod? {name : String} {ownClass : Class} {method : Closure}
    (h : ownClass.Nearest name method) : ownClass.findMethod? name = some method := by
  induction h with
  | own hlookup => exact Class.findMethod?_eq_some_iff.2 (.inl hlookup)
  | inherited hlookup habove _ ih =>
      exact Class.findMethod?_eq_some_iff.2 (.inr ⟨hlookup, _, habove, ih⟩)

theorem Class.nearest_of_findMethod? {name : String} {method : Closure} :
    (ownClass : Class) → ownClass.findMethod? name = some method → ownClass.Nearest name method
  | ⟨_, _, none, _⟩, h => .own h
  | ⟨_, _, some above, _⟩, h => by
      rcases findMethod?_eq_some_iff.1 h with hlookup | ⟨hlookup, _, ⟨⟩, hinherited⟩
      · exact .own hlookup
      · exact .inherited hlookup rfl (nearest_of_findMethod? above hinherited)

/-! ## Parameters -/

namespace Bindings

theorem get?_foldl_of_not_mem {entries : List (String × Value)} {name : String}
    (h : ∀ entry ∈ entries, entry.1 ≠ name) (bindings : Bindings) :
    (entries.foldl (fun bindings entry => bindings.set entry.1 entry.2) bindings).get? name =
      bindings.get? name := by
  induction entries generalizing bindings with
  | nil => rfl
  | cons entry rest ih =>
      obtain ⟨hentry, hrest⟩ := List.forall_mem_cons.1 h
      rw [List.foldl_cons, ih hrest, get?_set, if_neg hentry.symm]

/-- Of entries with the same name the last one counts. -/
theorem get?_foldl_of_last {entries : List (String × Value)} {index : Nat} {name : String}
    {value : Value} (h : entries[index]? = some (name, value))
    (hlast : ∀ later > index, ∀ entry, entries[later]? = some entry → entry.1 ≠ name)
    (bindings : Bindings) :
    (entries.foldl (fun bindings entry => bindings.set entry.1 entry.2) bindings).get? name =
      some value := by
  induction entries generalizing bindings index with
  | nil => cases h
  | cons entry rest ih =>
      rw [List.foldl_cons]
      cases index with
      | zero =>
          obtain rfl : entry = (name, value) := Option.some.inj h
          have hrest : ∀ entry ∈ rest, entry.1 ≠ name := by
            intro entry hentry
            obtain ⟨later, hlater⟩ := List.getElem?_of_mem hentry
            exact hlast (later + 1) (Nat.succ_pos later) entry hlater
          rw [get?_foldl_of_not_mem hrest, get?_set, if_pos rfl]
      | succ index =>
          refine ih h (fun later hlater other hother => ?_) _
          exact hlast (later + 1) (Nat.succ_lt_succ hlater) other hother

end Bindings

/-- The variables of a scope are the parameters of a function, each with its argument as value.  Of
parameters with the same name the last one counts. -/
structure Store.Pairs (store : Store) (scope : ScopeId) (params : List Token)
    (arguments : List Value) : Prop where
  count : arguments.length = params.length
  values : ∀ (index : Nat) (param : Token) (argument : Value),
    params[index]? = some param → arguments[index]? = some argument →
    (∀ later > index, ∀ other : Token, params[later]? = some other →
      other.lexeme ≠ param.lexeme) →
    store.binding? scope param.lexeme = some argument
  bound : ∀ param ∈ params, (store.binding? scope param.lexeme).isSome
  only : ∀ name, (∀ param ∈ params, Token.lexeme param ≠ name) → store.binding? scope name = none

theorem Store.pairs_newScope (store : Store) {params : List Token} {arguments : List Value}
    (hcount : arguments.length = params.length) :
    let bindings := Bindings.ofList ((params.map Token.lexeme).zip arguments)
    (store.newScope bindings).1.Pairs (store.newScope bindings).2 params arguments := by
  intro bindings
  let names := params.map Token.lexeme
  have hnames (name : String) :
      (store.newScope bindings).1.binding? (store.newScope bindings).2 name =
        bindings.get? name := by
    rw [binding?_newScope, if_pos rfl]
  refine ⟨hcount, ?_, ?_, ?_⟩
  · intro index param argument hparam hargument hlast
    have hentry : (names.zip arguments)[index]? = some (param.lexeme, argument) := by
      rw [List.getElem?_zip_eq_some, List.getElem?_map, hparam, hargument]
      exact ⟨rfl, rfl⟩
    refine (hnames _).trans (Bindings.get?_foldl_of_last hentry ?_ [])
    intro later hlater entry hother
    obtain ⟨hname, -⟩ := List.getElem?_zip_eq_some.1 hother
    rw [List.getElem?_map] at hname
    obtain ⟨other, hother, hlexeme⟩ := Option.map_eq_some_iff.1 hname
    exact hlexeme ▸ hlast later hlater other hother
  · intro param hparam
    rw [hnames]
    refine Bindings.isSome_get?_ofList ?_
    have hlength : names.length ≤ arguments.length := by
      rw [List.length_map, hcount]
    rw [List.map_fst_zip hlength]
    exact List.mem_map_of_mem hparam
  · intro name hname
    refine (hnames _).trans (Bindings.get?_foldl_of_not_mem ?_ [])
    intro entry hentry
    obtain ⟨param, hparam, hlexeme⟩ := List.mem_map.1 (List.of_mem_zip hentry).1
    exact hlexeme ▸ hname param hparam

namespace Machine

/-- A machine is about to run the body of a method of an instance, in a scope in which each
parameter has its argument as value and nothing else is bound.  Of parameters with the same name the
last one counts. -/
structure Enters (machine : Machine) (method : Closure) (object : Instance)
    (arguments : List Value) : Prop where
  body : machine.control = .run method.declaration.body
  count : arguments.length = method.declaration.params.length
  scopes : ∃ scope bound, machine.env = scope :: bound :: method.env ∧
    machine.world.store.binding? bound thisName = some (.object object) ∧
    (∀ (index : Nat) (param : Token) (argument : Value),
      method.declaration.params[index]? = some param → arguments[index]? = some argument →
      (∀ later > index, ∀ other : Token, method.declaration.params[later]? = some other →
        other.lexeme ≠ param.lexeme) →
      machine.world.store.binding? scope param.lexeme = some argument) ∧
    ∀ name, (∀ param ∈ method.declaration.params, Token.lexeme param ≠ name) →
      machine.world.store.binding? scope name = none

theorem enters_enter {machine : Machine} {world : World} {method : Closure} {object : Instance}
    (hworld : machine.world = (world.bind method object).1) {arguments : List Value}
    (hcount : arguments.length = method.declaration.params.length) (made : Option Instance) :
    (machine.enter (world.bind method object).2 arguments made).Enters method object
      arguments := by
  let names := method.declaration.params.map Token.lexeme
  let bindings := Bindings.ofList (names.zip arguments)
  let entered := machine.world.store.newScope bindings
  have hpairs := machine.world.store.pairs_newScope hcount
  refine ⟨rfl, hcount, entered.2, world.store.scopes.size, rfl, ?_, hpairs.values, hpairs.only⟩
  have hbound : machine.world.store.binding? world.store.scopes.size thisName =
      some (.object object) := by
    rw [hworld]
    have hopening : [Opening.bound (world.bind method object).2 object][0]? =
      some (.bound (world.bind method object).2 object) := rfl
    exact ((world.opens_bind method object).bound hopening).2
  have hlt : world.store.scopes.size < machine.world.store.scopes.size := by
    rw [hworld, (world.opens_bind method object).scopes]
    exact Nat.lt_succ_self _
  rw [← hbound]
  exact (machine.world.store.staysIn_newScope bindings).binding?_eq hlt thisName

/-! ## The end of a call -/

/-- The call that the next step makes comes to its end. -/
def CallEnds (machine finish : Machine) : Prop :=
  Works machine.frames.tail machine.step finish ∧ finish.Ended machine.frames.tail

/-- The work above the frames of a machine comes to an end without a failure. -/
def Succeeds (machine : Machine) : Prop :=
  ∃ last completion, Works machine.frames machine last ∧ last.frames = machine.frames ∧
    last.control = .completed completion

/-- Work that has ended at once has not gone on. -/
theorem Works.eq_of_ended {base : List Frame} {start finish : Machine}
    (h : Works base start finish) (hended : start.Ended base) : finish = start := by
  induction h with
  | start => rfl
  | step _ hnot ih => exact absurd (ih ▸ hended) hnot

/-- The end of a call follows on the end of its body. -/
theorem step_of_ended_activation {machine : Machine} {activation : Activation} {base : List Frame}
    (h : machine.Ended (.activation activation :: base)) :
    machine.step = machine ∨ machine.step.Ended base := by
  obtain ⟨control, frames, env, depth, world⟩ := machine
  obtain ⟨rfl, hresult⟩ := h
  cases control with
  | value value => exact .inl rfl
  | completed completion =>
      refine .inr ?_
      dsimp only [step, finish, leave]
      split
      · split
        · exact ⟨rfl, rfl⟩
        · exact ⟨rfl, rfl⟩
      · cases completion
        · exact ⟨rfl, rfl⟩
        · exact ⟨rfl, rfl⟩
  | failed failure => exact .inr ⟨rfl, rfl⟩
  | _ => cases hresult

/-- Work on a call is work on its body, or the body has come to its end. -/
theorem Works.of_activation {activation : Activation} {base : List Frame} {start finish : Machine}
    (h : Works base start finish) :
    Works (.activation activation :: base) start finish ∨
      finish.Ended base ∧ ∃ last, Works (.activation activation :: base) start last ∧
        last.Ended (.activation activation :: base) ∧ finish = last.step := by
  induction h with
  | start => exact .inl .start
  | @step machine _ hnot ih =>
      rcases ih with hbody | ⟨hended, -⟩
      · by_cases hended : machine.Ended (.activation activation :: base)
        · rcases step_of_ended_activation hended with hsame | hleft
          · exact .inl (hsame.symm ▸ hbody)
          · exact .inr ⟨hleft, machine, hbody, hended, rfl⟩
        · exact .inl (.step hbody hended)
      · exact absurd hended hnot

/-- A call ends when its body has come to its end. -/
theorem Works.exists_last {activation : Activation} {base : List Frame} {start finish : Machine}
    (h : Works base start finish) (hframes : start.frames = .activation activation :: base)
    (hended : finish.Ended base) :
    ∃ last, Works (.activation activation :: base) start last ∧
      last.Ended (.activation activation :: base) ∧ finish = last.step := by
  rcases h.of_activation with hbody | ⟨-, hlast⟩
  · have hback : start.LeadsBack (.activation activation :: base) start.env start.depth :=
      ⟨[], hframes, rfl, rfl⟩
    obtain ⟨inner, hinner, -⟩ := hback.works hbody
    have hlength := congrArg List.length (hended.1.symm.trans hinner)
    rw [List.length_append, List.length_cons] at hlength
    omega
  · exact hlast

/-- An initializer that is left without a failure has the instance as its result that is made, or
that is bound in its environment. -/
theorem leave_of_isInitializer (machine : Machine) {activation : Activation}
    (hflag : activation.callee.isInitializer) (completion : Completion) :
    (∃ bound, machine.world.store.getAt? activation.callee.env 0 thisName = some bound ∧
      (machine.leave activation completion).control =
        .value ((activation.made.map Value.object).getD bound)) ∨
      ∃ failure, (machine.leave activation completion).control = .failed failure := by
  unfold leave
  rw [if_pos hflag]
  dsimp only
  cases hbound : machine.world.store.getAt? activation.callee.env 0 thisName with
  | none => exact .inr ⟨_, rfl⟩
  | some bound =>
      refine .inl ⟨bound, rfl, ?_⟩
      cases activation.made with
      | none => rfl
      | some object => rfl

/-- The call of an initializer ends with a failure, or its body has come to an end without one. -/
theorem ends_of_isInitializer {start finish : Machine} {activation : Activation}
    {base : List Frame} (hframes : start.frames = .activation activation :: base)
    (hflag : activation.callee.isInitializer) (hworks : Works base start finish)
    (hended : finish.Ended base) :
    (∃ failure, finish.control = .failed failure) ∨
      ∃ last completion bound, Works start.frames start last ∧ last.frames = start.frames ∧
        last.control = .completed completion ∧
        last.world.store.getAt? activation.callee.env 0 thisName = some bound ∧
        finish.control = .value ((activation.made.map Value.object).getD bound) := by
  obtain ⟨last, hlast, hbody, rfl⟩ := hworks.exists_last hframes hended
  rw [← hframes] at hlast
  obtain ⟨control, frames, env, depth, world⟩ := last
  obtain ⟨rfl, hresult⟩ := hbody
  cases control with
  | value value =>
      have hlength := congrArg List.length hended.1
      exact absurd hlength (Nat.succ_ne_self _)
  | completed completion =>
      rcases leave_of_isInitializer ⟨.completed completion, base, env, depth, world⟩ hflag
        completion with ⟨bound, hbound, hvalue⟩ | hfailed
      · exact .inr ⟨_, completion, bound, hlast, hframes.symm, rfl, hbound, hvalue⟩
      · exact .inl hfailed
  | failed failure => exact .inl ⟨failure, rfl⟩
  | _ => cases hresult

namespace CallEnds

variable {machine finish : Machine} (hends : machine.CallEnds finish) {paren : Token}
  {arguments : List Value}

include hends

/-- A call that cannot be made ends with a failure. -/
theorem failed {callee : Value} {cause : RuntimeCause}
    (hcalling : machine.calling? = some (paren, callee, arguments))
    (hobstacle : callObstacle? callee arguments machine.depth = some cause) :
    ∃ failure, finish.control = .failed failure := by
  obtain ⟨hworks, -⟩ := hends
  have hstep : machine.step =
      fail { machine with frames := machine.frames.tail } (paren.fault cause) := by
    rw [step_eq_call hcalling]
    exact call_of_obstacle hobstacle
  have hended : machine.step.Ended machine.frames.tail := by
    rw [hstep]
    exact ⟨rfl, rfl⟩
  rw [hworks.eq_of_ended hended, hstep]
  exact ⟨_, rfl⟩

variable {ownClass : Class}
  (hcalling : machine.calling? = some (paren, .classValue ownClass, arguments))
  (hobstacle : callObstacle? (.classValue ownClass) arguments machine.depth = none)

include hcalling hobstacle

/-- The call of a class without an initializer ends with a new instance. -/
theorem of_initializer?_eq_none (hinitializer : ownClass.initializer? = none) :
    finish.control = .value (.object (machine.world.construct ownClass).2) := by
  obtain ⟨hworks, -⟩ := hends
  let made := machine.world.construct ownClass
  have hstep : machine.step =
      { machine with
        control := .value (.object made.2)
        frames := machine.frames.tail
        world := made.1 } := by
    rw [step_eq_call hcalling]
    exact call_class hobstacle hinitializer
  have hended : machine.step.Ended machine.frames.tail := by
    rw [hstep]
    exact ⟨rfl, rfl⟩
  rw [hworks.eq_of_ended hended, hstep]

/-- The call of a class with an initializer runs it on the new instance, and ends with a failure or
with that instance. -/
theorem of_initializer? {method : Closure} (hinitializer : ownClass.initializer? = some method)
    (hflag : method.isInitializer) :
    (∃ failure, finish.control = .failed failure) ∨
      finish.control = .value (.object (machine.world.construct ownClass).2) ∧
        machine.step.Enters method (machine.world.construct ownClass).2 arguments ∧
        machine.step.Succeeds := by
  obtain ⟨hworks, hended⟩ := hends
  let made := machine.world.construct ownClass
  let bound := made.1.bind method made.2
  have hstep : machine.step =
      enter { machine with frames := machine.frames.tail, world := bound.1 } bound.2 arguments
        (some made.2) := by
    rw [step_eq_call hcalling]
    exact call_class_of_initializer? hobstacle hinitializer
  have hframes : machine.step.frames =
      .activation ⟨machine.env, bound.2, some made.2⟩ :: machine.frames.tail := by
    rw [hstep]
    rfl
  have hcount : method.declaration.params.length = arguments.length := by
    have harity := (callObstacle?_eq_none_iff.1 hobstacle).1
    exact Option.some.inj ((Value.arity?_of_initializer? hinitializer).symm.trans harity)
  rcases ends_of_isInitializer hframes hflag hworks hended with hfailed |
    ⟨last, completion, _, hlast, hsame, hcompleted, -, hvalue⟩
  · exact .inl hfailed
  · refine .inr ⟨hvalue, ?_, last, completion, hlast, hsame, hcompleted⟩
    rw [hstep]
    exact enters_enter rfl hcount.symm _

end CallEnds

end Machine

namespace Run

/-- Every moment of the work on a call is a moment of a run. -/
theorem Arises.of_works {run : Run} (h : run.Arises) {base : List Frame} {finish : Machine}
    (hworks : Machine.Works base run.machine.step finish) :
    ∃ later : Run, later.Arises ∧ later.machine = finish ∧ run.past.Extends later.past := by
  induction hworks with
  | start => exact ⟨run.step, h.step, rfl, run.extends_step⟩
  | step _ _ ih =>
      obtain ⟨later, hlater, rfl, hextends⟩ := ih
      have hstep := later.extends_step
      exact ⟨later.step, hlater.step, rfl, List.Subset.trans hextends.executed hstep.executed,
        hextends.openings.trans hstep.openings⟩

/-- The call of a method that is an initializer. -/
theorem Arises.call_initializer {run : Run} (h : run.Arises) {paren : Token} {function : Closure}
    {arguments : List Value}
    (hcalling : run.machine.calling? = some (paren, .function function, arguments))
    {object : Instance} (hbinds : run.past.BindsTo function object) (hflag : function.isInitializer)
    {finish : Machine} (hends : run.machine.CallEnds finish) :
    finish.control = .value (.object object) ∨ ∃ failure, finish.control = .failed failure := by
  cases hobstacle : callObstacle? (.function function) arguments run.machine.depth with
  | some cause => exact .inr (hends.failed hcalling hobstacle)
  | none =>
      obtain ⟨hworks, hended⟩ := hends
      have hstep : run.machine.step =
          Machine.enter { run.machine with frames := run.machine.frames.tail } function arguments
            none := by
        rw [Machine.step_eq_call hcalling]
        exact Machine.call_function hobstacle
      have hframes : run.machine.step.frames =
          .activation ⟨run.machine.env, function, none⟩ :: run.machine.frames.tail := by
        rw [hstep]
        rfl
      rcases Machine.ends_of_isInitializer hframes hflag hworks hended with hfailed |
        ⟨last, completion, bound, hlast, -, -, hbound, hvalue⟩
      · exact .inr hfailed
      · obtain ⟨later, hlater, rfl, hextends⟩ := h.of_works hlast
        obtain ⟨scope, outer, henv, hopening⟩ := hbinds.mono hextends
        obtain ⟨-, hthis⟩ := hlater.traced.bound hopening
        refine .inl (hvalue.trans ?_)
        rw [henv] at hbound
        obtain rfl : Value.object object = bound := Option.some.inj (hthis.symm.trans hbound)
        rfl

/-- The call of a class. -/
theorem Arises.call_class {run : Run} (h : run.Arises) {paren : Token} {ownClass : Class}
    {arguments : List Value}
    (hcalling : run.machine.calling? = some (paren, .classValue ownClass, arguments))
    {finish : Machine} (hends : run.machine.CallEnds finish) :
    (∃ failure, finish.control = .failed failure) ∨
      ∃ object : Instance, finish.control = .value (.object object) ∧
        object.ownClass = ownClass ∧
        (run.machine.Everywhere fun value =>
          ∀ other, value = .object other → other.identity ≠ object.identity) ∧
        ((∀ method, ¬ownClass.Nearest FunctionDecl.initializerName method) ∨
          ∃ method, ownClass.Nearest FunctionDecl.initializerName method ∧
            run.machine.step.Enters method object arguments ∧ run.machine.step.Succeeds) := by
  have htraced := h.traced
  have hfresh : run.machine.Everywhere fun value => ∀ other, value = .object other →
      other.identity ≠ (run.machine.world.construct ownClass).2.identity := by
    refine htraced.values.mono ?_
    rintro value hvalue other rfl
    exact Nat.ne_of_lt hvalue.2
  cases hobstacle : callObstacle? (.classValue ownClass) arguments run.machine.depth with
  | some cause => exact .inl (hends.failed hcalling hobstacle)
  | none =>
      cases hinitializer : ownClass.initializer? with
      | none =>
          have hvalue := hends.of_initializer?_eq_none hcalling hobstacle hinitializer
          refine .inr ⟨_, hvalue, rfl, hfresh, .inl fun method hmethod => ?_⟩
          exact Option.some_ne_none method (hmethod.findMethod?.symm.trans hinitializer)
      | some method =>
          have hdeclares : run.past.DeclaresClass ownClass :=
            (htraced.values.of_calling? hcalling).1
          obtain ⟨hmethod, hname⟩ := hdeclares.of_findMethod? hinitializer
          have hflag : method.isInitializer := by
            rw [hmethod.flag, FunctionDecl.isInitializer, hname]
            exact beq_self_eq_true _
          rcases hends.of_initializer? hcalling hobstacle hinitializer hflag with hfailed |
            ⟨hvalue, henters, hsucceeds⟩
          · exact .inl hfailed
          · exact .inr ⟨_, hvalue, rfl, hfresh,
              .inr ⟨method, Class.nearest_of_findMethod? ownClass hinitializer, henters,
                hsucceeds⟩⟩

/-- Initializers give the instance, and classes new instances that have been initialized.

A function that is called was made by a function declaration, or it is a method that was bound to an
instance, which `this` is in its environment.  In that case, if it is an initializer and its call
ends without a failure, the result is the instance.  The call of a class that ends without a failure
leads to an instance of exactly that class, which there was not before.  The nearest initializer, if
the class or one above it has any, has then been run on that instance with the arguments of the call
as its parameters. -/
theorem Arises.initializes {run : Run} (h : run.Arises) {paren : Token} {callee : Value}
    {arguments : List Value}
    (hcalling : run.machine.calling? = some (paren, callee, arguments)) :
    (∀ function, callee = .function function →
      run.past.DeclaresFunction function ∨
        run.past.DeclaresMethod function ∧ ∃ object, run.past.BindsTo function object ∧
          run.machine.world.store.getAt? function.env 0 thisName = some (.object object) ∧
          (function.declaration.isInitializer → ∀ finish, run.machine.CallEnds finish →
            finish.control = .value (.object object) ∨
              ∃ failure, finish.control = .failed failure)) ∧
    (∀ ownClass, callee = .classValue ownClass → ∀ finish, run.machine.CallEnds finish →
      (∃ failure, finish.control = .failed failure) ∨
        ∃ object : Instance, finish.control = .value (.object object) ∧
          object.ownClass = ownClass ∧
          (run.machine.Everywhere fun value =>
            ∀ other, value = .object other → other.identity ≠ object.identity) ∧
          ((∀ method, ¬ownClass.Nearest FunctionDecl.initializerName method) ∨
            ∃ method, ownClass.Nearest FunctionDecl.initializerName method ∧
              run.machine.step.Enters method object arguments ∧
              run.machine.step.Succeeds)) := by
  constructor
  · rintro function rfl
    have htraced := h.traced
    rcases (htraced.values.of_calling? hcalling).1 with hfunction | ⟨hmethod, object, hbinds⟩
    · exact .inl hfunction
    · refine .inr ⟨hmethod, object, hbinds, ?_, ?_⟩
      · obtain ⟨scope, outer, henv, hopening⟩ := hbinds
        rw [henv]
        exact (htraced.bound hopening).2
      · intro hflag finish hends
        exact h.call_initializer hcalling hbinds (hmethod.flag.trans hflag) hends
  · rintro ownClass rfl finish hends
    exact h.call_class hcalling hends

/-- A class whose initializer returns something else, a call of the class, and one of the
initializer of its instance.  Resolution would reject the program. -/
def initializing : Program :=
  let name : Token := ⟨.identifier, "A", 1⟩
  let method : Token := ⟨.identifier, "init", 1⟩
  let paren : Token := ⟨.symbol .rightParen, ")", 1⟩
  [.classDecl name none [.mk method [⟨.identifier, "x", 1⟩]
      [.returnValue ⟨.keyword .returnKw, "return", 1⟩ (some (.literal (.bool false)))]],
    .expression (.call
      (.get (.call (.variable ⟨0, name⟩) paren [.literal .nil]) method) paren
      [.literal (.bool true)])]

theorem written_initializing : initializing.Written := by
  have hparse : Program.parse
      (TokenStream.ofSource "class A\x7binit(x)\x7breturn false;\x7d\x7dA(nil).init(true);").tokens
      (TokenStream.ofSource "class A\x7binit(x)\x7breturn false;\x7d\x7dA(nil).init(true);").endLine
      0 = ⟨.ok initializing, 1⟩ := by decide +kernel
  have hwritten : (id initializing).Written := .mk .script hparse
  exact hwritten

/-- When the class and the initializer are called. -/
theorem initializes_twice :
    let start := Run.start .initial (.initial none fun _ => 0) initializing
    let first := start.runFor 11
    let second := start.runFor 21
    start.Arises ∧
    (∃ paren ownClass, first.machine.calling? = some (paren, .classValue ownClass, [.nil]) ∧
      first.machine.CallEnds (first.machine.step.runFor 6) ∧
      ∃ object, (first.machine.step.runFor 6).control = .value (.object object) ∧
        object.ownClass = ownClass) ∧
    ∃ paren function, second.machine.calling? = some (paren, .function function, [.bool true]) ∧
      function.declaration.isInitializer ∧
      second.machine.CallEnds (second.machine.step.runFor 6) ∧
      ∃ object, second.past.BindsTo function object ∧
        (second.machine.step.runFor 6).control = .value (.object object) := by
  intro start first second
  have hstart : start.Arises := .first rfl written_initializing
  -- Both calls are over as soon as their frame has been left.
  have hopen : ∀ budget < 6,
      ¬((first.machine.step.runFor budget).frames.length = 4 ∧
        (first.machine.step.runFor budget).control.isResult) ∧
      ¬((second.machine.step.runFor budget).frames.length = 2 ∧
        (second.machine.step.runFor budget).control.isResult) := by decide
  have hends {machine finish : Machine} (base : List Frame)
      (htail : machine.frames.tail = base) (hworks : Machine.Works base machine.step finish)
      (hframes : finish.frames = base) (hresult : finish.control.isResult) :
      machine.CallEnds finish := by
    subst htail
    exact ⟨hworks, hframes, hresult⟩
  have hfirst : first.machine.CallEnds (first.machine.step.runFor 6) := by
    refine hends [.get ⟨.identifier, "init", 1⟩,
      .callee ⟨.symbol .rightParen, ")", 1⟩ [.literal (.bool true)], .expression, .sequence []]
      rfl (Machine.Works.runFor fun budget hbudget hended => ?_) rfl rfl
    exact (hopen budget hbudget).1 ⟨congrArg List.length hended.1, hended.2⟩
  have hsecond : second.machine.CallEnds (second.machine.step.runFor 6) := by
    refine hends [.expression, .sequence []] rfl
      (Machine.Works.runFor fun budget hbudget hended => ?_) rfl rfl
    exact (hopen budget hbudget).2 ⟨congrArg List.length hended.1, hended.2⟩
  obtain ⟨paren, ownClass, hcalling⟩ : ∃ paren ownClass,
      first.machine.calling? = some (paren, .classValue ownClass, [.nil]) := ⟨_, _, rfl⟩
  obtain ⟨paren', function, hcalling', hflag⟩ : ∃ paren function,
      second.machine.calling? = some (paren, .function function, [.bool true]) ∧
        function.declaration.isInitializer ∧ function.isInitializer := ⟨_, _, rfl, rfl, rfl⟩
  obtain ⟨value, hvalue⟩ : ∃ value, (first.machine.step.runFor 6).control = .value value := ⟨_, rfl⟩
  obtain ⟨value', hvalue'⟩ : ∃ value, (second.machine.step.runFor 6).control = .value value :=
    ⟨_, rfl⟩
  refine ⟨hstart, ⟨paren, ownClass, hcalling, hfirst, ?_⟩,
    paren', function, hcalling', hflag.1, hsecond, ?_⟩
  · rcases (Arises.initializes (hstart.runFor 11) hcalling).2 ownClass rfl _ hfirst with
      ⟨failure, hfailed⟩ | ⟨object, hobject, hclass, -⟩
    · cases hvalue.symm.trans hfailed
    · exact ⟨object, hobject, hclass⟩
  · rcases (Arises.initializes (hstart.runFor 21) hcalling').1 function rfl with
      hfunction | ⟨-, object, hbinds, -, hresult⟩
    · cases hfunction.flag.symm.trans hflag.2
    · rcases hresult hflag.1 _ hsecond with hobject | ⟨failure, hfailed⟩
      · exact ⟨object, hbinds, hobject⟩
      · cases hvalue'.symm.trans hfailed

end Run

end LoxLang
