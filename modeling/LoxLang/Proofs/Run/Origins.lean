import LoxLang.Proofs.Run.Arising
import LoxLang.Proofs.Run.Contents

/-!
# Where functions, classes and instances come from

Whether programs have been resolved or not, all functions, classes and instances that there are have
been made by statements on record: a function by a function declaration, or of a method of a class
declaration when that was bound to an instance, in a scope that has the instance as `this` from then
on (`Run.Arises.traced`).
-/

namespace LoxLang

namespace Past

variable {past : Past}

/-- A function was made by a function declaration. -/
structure DeclaresFunction (past : Past) (function : Closure) : Prop where
  flag : function.isInitializer = false
  declared : ∃ execution ∈ past.executed,
    execution.statement = .function function.declaration ∧ execution.env = function.env

/-- A function was made of a method of a class declaration. -/
structure DeclaresMethod (past : Past) (method : Closure) : Prop where
  flag : method.isInitializer = method.declaration.isInitializer
  declared : ∃ execution ∈ past.executed, ∃ name clause methods,
    execution.statement = .classDecl name clause methods ∧ method.declaration ∈ methods

/-- A function was made when a method was bound to an instance. -/
def BindsTo (past : Past) (function : Closure) (object : Instance) : Prop :=
  ∃ scope outer, function.env = scope :: outer ∧
    past.openings[scope]? = some (.bound function object)

/-- A class was made by a class declaration, and so were those above it. -/
inductive DeclaresClass (past : Past) : Class → Prop
  | mk {ownClass : Class} :
      (∀ entry ∈ ownClass.methods,
        entry.1 = entry.2.declaration.name.lexeme ∧ past.DeclaresMethod entry.2) →
      (∀ above, ownClass.superclass = some above → DeclaresClass past above) →
      DeclaresClass past ownClass

/-- Where a value comes from, if its scope is left open when it is a method that has been bound. -/
def Declares (past : Past) : Value → Prop
  | .function function => past.DeclaresFunction function ∨ past.DeclaresMethod function
  | .classValue value => past.DeclaresClass value
  | .object object => past.DeclaresClass object.ownClass
  | _ => True

/-- Where a value comes from, if there are so many instances. -/
def Accounts (past : Past) (instances : Nat) : Value → Prop
  | .function function => past.DeclaresFunction function ∨
      past.DeclaresMethod function ∧ ∃ object, past.BindsTo function object
  | .classValue value => past.DeclaresClass value
  | .object object => past.DeclaresClass object.ownClass ∧ object.identity < instances
  | _ => True

theorem Accounts.declares {instances : Nat} {value : Value} (h : past.Accounts instances value) :
    past.Declares value := by
  cases value with
  | function function => exact h.imp_right And.left
  | object object => exact h.1
  | classValue ownClass => exact h
  | _ => trivial

/-- What is on record later. -/
structure Extends (old new : Past) : Prop where
  executed : old.executed ⊆ new.executed
  openings : old.openings <+: new.openings

section

variable {old new : Past} (h : old.Extends new)

include h

theorem DeclaresFunction.mono {function : Closure} (hfunction : old.DeclaresFunction function) :
    new.DeclaresFunction function := by
  obtain ⟨hflag, execution, hmem, hdeclared⟩ := hfunction
  exact ⟨hflag, execution, h.executed hmem, hdeclared⟩

theorem DeclaresMethod.mono {method : Closure} (hmethod : old.DeclaresMethod method) :
    new.DeclaresMethod method := by
  obtain ⟨hflag, execution, hmem, hdeclared⟩ := hmethod
  exact ⟨hflag, execution, h.executed hmem, hdeclared⟩

theorem DeclaresClass.mono {ownClass : Class} (hclass : old.DeclaresClass ownClass) :
    new.DeclaresClass ownClass := by
  induction hclass with
  | mk hmethods _ ih =>
      refine .mk (fun entry hentry => ?_) ih
      obtain ⟨hname, hmethod⟩ := hmethods entry hentry
      exact ⟨hname, hmethod.mono h⟩

theorem BindsTo.mono {function : Closure} {object : Instance}
    (hbound : old.BindsTo function object) :
    new.BindsTo function object := by
  obtain ⟨scope, outer, henv, hopening⟩ := hbound
  obtain ⟨later, hlater⟩ := h.openings
  have hlt : scope < old.openings.length := (List.getElem?_eq_some_iff.1 hopening).1
  exact ⟨scope, outer, henv, by rw [← hlater, List.getElem?_append_left hlt, hopening]⟩

theorem Declares.mono {value : Value} (hvalue : old.Declares value) : new.Declares value := by
  cases value with
  | function function =>
      exact hvalue.imp (DeclaresFunction.mono h) (DeclaresMethod.mono h)
  | classValue ownClass => exact DeclaresClass.mono h hvalue
  | object object => exact DeclaresClass.mono h hvalue
  | _ => trivial

theorem Accounts.mono {value : Value} {instances more : Nat} (hle : instances ≤ more)
    (hvalue : old.Accounts instances value) : new.Accounts more value := by
  cases value with
  | function function =>
      rcases hvalue with hfunction | ⟨hmethod, object, hbound⟩
      · exact .inl (hfunction.mono h)
      · exact .inr ⟨hmethod.mono h, object, hbound.mono h⟩
  | classValue ownClass => exact DeclaresClass.mono h hvalue
  | object object => exact ⟨DeclaresClass.mono h hvalue.1, Nat.lt_of_lt_of_le hvalue.2 hle⟩
  | _ => trivial

end

/-- Methods are found in the class or in one above it, under their names. -/
theorem DeclaresClass.of_findMethod? {ownClass : Class} {name : String} {method : Closure}
    (h : past.DeclaresClass ownClass) (hfound : ownClass.findMethod? name = some method) :
    past.DeclaresMethod method ∧ method.declaration.name.lexeme = name := by
  induction h with
  | @mk ownClass hmethods _ ih =>
      rcases Class.findMethod?_eq_some_iff.1 hfound with hlookup | ⟨-, above, habove, hinherited⟩
      · obtain ⟨hname, hmethod⟩ := hmethods (name, method) (Scene.mem_of_lookup hlookup)
        exact ⟨hmethod, hname.symm⟩
      · exact ih above habove hinherited

/-- The methods of a class declaration that has been executed. -/
theorem declares_closeAll {world : World} {env : Env} {methods : List FunctionDecl}
    (hdeclared : ∀ declaration ∈ methods, ∃ execution ∈ past.executed, ∃ name clause all,
      execution.statement = .classDecl name clause all ∧ declaration ∈ all) :
    ∀ entry ∈ (world.closeAll env methods).2,
      entry.1 = entry.2.declaration.name.lexeme ∧ past.DeclaresMethod entry.2 := by
  induction methods generalizing world with
  | nil => exact fun entry hentry => by cases hentry
  | cons method rest ih =>
      intro entry hentry
      rcases List.mem_cons.1 hentry with rfl | hmem
      · exact ⟨rfl, rfl, hdeclared method List.mem_cons_self⟩
      · exact ih (fun declaration hmem => hdeclared declaration (List.mem_cons_of_mem _ hmem))
          entry hmem

theorem declares_makeClass {world : World} {env : Env} {execution : Execution} {name : Token}
    {clause : Option Occurrence} {methods : List FunctionDecl} {superclass : Option Class}
    (hexecution : execution ∈ past.executed)
    (hstatement : execution.statement = .classDecl name clause methods)
    (hsuperclass : ∀ above, superclass = some above → past.DeclaresClass above) :
    past.DeclaresClass (world.makeClass env name.lexeme superclass methods).2 := by
  have hdeclared : ∀ declaration ∈ methods, ∃ execution ∈ past.executed, ∃ name clause all,
      execution.statement = .classDecl name clause all ∧ declaration ∈ all :=
    fun declaration hmem => ⟨execution, hexecution, name, clause, methods, hstatement, hmem⟩
  cases superclass with
  | none =>
      refine .mk (fun entry hentry => ?_) fun above habove => by cases habove
      exact declares_closeAll hdeclared entry (List.mem_reverse.1 hentry)
  | some superclass =>
      refine .mk (fun entry hentry => ?_) fun above habove => hsuperclass above habove
      exact declares_closeAll hdeclared entry (List.mem_reverse.1 hentry)

end Past

/-! ## Runs -/

namespace Run

/-- What a run holds comes from what is on record, and every scope that was made for a method that
was bound to an instance has that instance. -/
structure Traced (run : Run) : Prop where
  size : run.past.openings.length = run.machine.world.store.scopes.size
  bound : ∀ {scope function object}, run.past.openings[scope]? = some (.bound function object) →
    function.env.head? = some scope ∧
      run.machine.world.store.binding? scope thisName = some (.object object)
  executed : ∀ execution ∈ run.past.executed, execution.statement.Formed Token.Genuine
  formed : run.machine.Formed
  values : run.machine.Everywhere (run.past.Accounts run.machine.world.store.objects.size)

theorem extends_step (run : Run) : run.past.Extends run.step.past :=
  ⟨List.subset_append_right _ _, List.prefix_append _ _⟩

end Run

theorem Control.Everywhere.mono {P Q : Value → Prop} (hPQ : ∀ value, P value → Q value)
    {control : Control} (h : control.Everywhere P) : control.Everywhere Q := by
  cases control with
  | value value => exact hPQ value h
  | completed completion =>
      cases completion with
      | normal => trivial
      | returned value => exact hPQ value h
  | _ => trivial

theorem Frame.Everywhere.mono {P Q : Value → Prop} (hPQ : ∀ value, P value → Q value)
    {frame : Frame} (h : frame.Everywhere P) : frame.Everywhere Q := by
  cases frame with
  | binaryRight operator left => exact hPQ left h
  | argument paren callee done rest =>
      exact ⟨hPQ callee h.1, fun value hvalue => hPQ value (h.2 value hvalue)⟩
  | setValue name object => exact hPQ (.object object) h
  | activation call =>
      exact ⟨hPQ (.function call.callee) h.1, fun object hobject => hPQ _ (h.2 object hobject)⟩
  | _ => trivial

theorem Machine.Everywhere.mono {P Q : Value → Prop} (hPQ : ∀ value, P value → Q value)
    {machine : Machine} (h : machine.Everywhere P) : machine.Everywhere Q where
  world := ⟨fun hvalue => hPQ _ (h.world.bindings hvalue),
    fun hvalue => hPQ _ (h.world.fields hvalue)⟩
  control := h.control.mono hPQ
  frames frame hframe := (h.frames frame hframe).mono hPQ

/-- The callee of the next call and its arguments are values of the machine. -/
theorem Machine.Everywhere.of_calling? {P : Value → Prop} {machine : Machine}
    (h : machine.Everywhere P) {paren : Token} {callee : Value} {arguments : List Value}
    (hcalling : machine.calling? = some (paren, callee, arguments)) :
    P callee ∧ ∀ argument ∈ arguments, P argument := by
  obtain ⟨control, frames, env, depth, world⟩ := machine
  unfold Machine.calling? at hcalling
  dsimp only at hcalling
  split at hcalling
  · cases hcalling
    exact ⟨h.control, fun argument hargument => by cases hargument⟩
  · cases hcalling
    have hframe := h.frames _ List.mem_cons_self
    refine ⟨hframe.1, fun argument hargument => ?_⟩
    rcases List.mem_cons.1 (List.mem_reverse.1 hargument) with rfl | hmem
    · exact h.control
    · exact hframe.2 argument hmem
  · cases hcalling

theorem Machine.step_eq_call {machine : Machine} {paren : Token} {callee : Value}
    {arguments : List Value} (h : machine.calling? = some (paren, callee, arguments)) :
    machine.step =
      call { machine with frames := machine.frames.tail } paren callee arguments := by
  obtain ⟨control, frames, env, depth, world⟩ := machine
  unfold Machine.calling? at h
  dsimp only at h
  split at h
  · cases h
    rfl
  · cases h
    rfl
  · cases h

/-- The statement that is executed is on record. -/
theorem Run.mem_executed {run : Run} {statement : Stmt}
    (hcontrol : run.machine.control = .execute statement) :
    ∃ execution ∈ run.step.past.executed, execution.statement = statement ∧
      execution.env = run.machine.env := by
  refine ⟨⟨statement, run.machine.env, run.active⟩, List.mem_append_left _ ?_, rfl, rfl⟩
  rw [execution, hcontrol]
  exact List.mem_cons_self

section

variable {past : Past} {machine : Machine} {function : Closure} {object : Instance}

theorem Past.declares_called {callee : Value} {arguments : List Value}
    (hcallee : past.Declares callee)
    (hbound : .bound function object ∈ machine.openedByCall callee arguments) :
    past.DeclaresMethod function := by
  unfold Machine.openedByCall at hbound
  split at hbound
  · cases hbound
  · split at hbound
    · cases List.mem_singleton.1 hbound
    · next ownClass =>
        split at hbound
        · cases hbound
        · next method hinitializer =>
            rcases List.mem_cons.1 hbound with heq | hmem
            · cases heq
              have hmethod := (DeclaresClass.of_findMethod? hcallee hinitializer).1
              exact ⟨hmethod.flag, hmethod.declared⟩
            · cases List.mem_singleton.1 hmem
    · cases hbound

theorem Past.declares_next {callee : Value} {done : List Value} {rest : List Expr}
    (hcallee : past.Declares callee)
    (hbound : .bound function object ∈ machine.openedByNext callee done rest) :
    past.DeclaresMethod function := by
  cases rest with
  | nil => exact declares_called hcallee hbound
  | cons argument rest => cases hbound

/-- The functions that are bound to instances are methods of classes. -/
theorem Past.declares_bound (h : machine.Everywhere past.Declares)
    (hbound : .bound function object ∈ machine.opened) : past.DeclaresMethod function := by
  obtain ⟨control, frames, env, depth, world⟩ := machine
  cases control with
  | evaluate expression =>
      cases expression with
      | superRef occurrence method =>
          have hopened : .bound function object ∈ world.openedBySuper env occurrence method :=
            hbound
          rcases world.superMethod_cases env occurrence method with ⟨fault, -, hnone⟩ |
            ⟨distance, superclass, bound, found, -, hclass, -, hfound, -, hsome⟩
          · rw [hnone] at hopened
            cases hopened
          · rw [hsome] at hopened
            cases List.mem_singleton.1 hopened
            have hdeclares := h.world.getAt? hclass
            have hmethod := (DeclaresClass.of_findMethod? hdeclares hfound).1
            exact ⟨hmethod.flag, hmethod.declared⟩
      | _ => cases hbound
  | execute statement =>
      cases statement with
      | block body => cases List.mem_singleton.1 hbound
      | classDecl name superclass methods =>
          cases superclass with
          | none => cases hbound
          | some clause =>
              dsimp only [Machine.opened, Machine.openedByStatement] at hbound
              split at hbound
              · cases List.mem_singleton.1 hbound
              · cases hbound
      | _ => cases hbound
  | value value =>
      cases frames with
      | nil => cases hbound
      | cons frame frames =>
          cases frame with
          | callee paren arguments => exact declares_next h.control hbound
          | argument paren callee done rest =>
              exact declares_next (h.frames _ List.mem_cons_self).1 hbound
          | get name =>
              cases value with
              | object bound =>
                  dsimp only [Machine.opened, Machine.openedByValue,
                    World.openedByProperty] at hbound
                  split at hbound
                  · cases hbound
                  · split at hbound
                    · next method hfound =>
                        cases List.mem_singleton.1 hbound
                        have hmethod := (DeclaresClass.of_findMethod? h.control hfound).1
                        exact ⟨hmethod.flag, hmethod.declared⟩
                    · cases hbound
              | _ => cases hbound
          | _ => cases hbound
  | _ => cases hbound

end

/-! ## Steps -/

/-- Declarations that have been executed are formed, and so are the functions that are made of
them. -/
theorem Past.admissible {past : Past}
    (h : ∀ execution ∈ past.executed, execution.statement.Formed Token.Genuine)
    {P : Value → Prop} (hplain : ∀ value, value.IsPlain → P value)
    (hdeclares : ∀ value, P value → past.Declares value) : Value.Admissible P := by
  refine ⟨hplain, fun function hfunction => ?_⟩
  rcases hdeclares _ hfunction with hdeclared | hmethod
  · obtain ⟨execution, hmem, hstatement, -⟩ := hdeclared.declared
    have hformed := h execution hmem
    rw [hstatement] at hformed
    exact ⟨hformed.spells.2, fun inner hinner => hformed.enclosed hinner⟩
  · obtain ⟨execution, hmem, name, clause, methods, hstatement, hmethod⟩ := hmethod.declared
    have hformed := h execution hmem
    rw [hstatement] at hformed
    refine ⟨hformed.spells.2.2 _ hmethod, fun inner hinner => ?_⟩
    exact hformed.enclosed (List.mem_flatMap.2 ⟨_, hmethod, hinner⟩)

/-- The call of a class makes one instance. -/
theorem Machine.size_objects_call (machine : Machine) {ownClass : Class} {arguments : List Value}
    (h : callObstacle? (.classValue ownClass) arguments machine.depth = none) (paren : Token) :
    (machine.call paren (.classValue ownClass) arguments).world.store.objects.size =
      machine.world.store.objects.size + 1 := by
  cases hinitializer : ownClass.initializer? with
  | none =>
      rw [call_class h hinitializer]
      exact Array.size_push _
  | some method =>
      rw [call_class_of_initializer? h hinitializer]
      exact Array.size_push _

theorem Past.declares_of_isPlain {past : Past} {value : Value} (h : value.IsPlain) :
    past.Declares value := by
  cases value with
  | function function => exact h.elim
  | classValue ownClass => exact h.elim
  | object object => exact h.elim
  | _ => trivial

theorem Past.accounts_of_isPlain {past : Past} {instances : Nat} {value : Value}
    (h : value.IsPlain) : past.Accounts instances value := by
  cases value with
  | function function => exact h.elim
  | classValue ownClass => exact h.elim
  | object object => exact h.elim
  | _ => trivial

namespace Run.Traced

variable {run : Run} (h : run.Traced)

include h

theorem declares_makes {value : Value} (hmakes : run.machine.Makes value) :
    run.step.past.Declares value := by
  have hdeclares := h.values.mono fun value hvalue => hvalue.declares
  have hvalues := hdeclares.mono fun value hvalue => hvalue.mono run.extends_step
  cases hmakes with
  | function hcontrol =>
      obtain ⟨execution, hmem, hstatement, henv⟩ := Run.mem_executed hcontrol
      exact .inl ⟨rfl, execution, hmem, hstatement, henv⟩
  | plainClass hcontrol =>
      obtain ⟨execution, hmem, hstatement, -⟩ := Run.mem_executed hcontrol
      exact Past.declares_makeClass hmem hstatement fun above habove => by cases habove
  | subclass hcontrol hread =>
      obtain ⟨execution, hmem, hstatement, -⟩ := Run.mem_executed hcontrol
      refine Past.declares_makeClass hmem hstatement ?_
      rintro above ⟨⟩
      exact hvalues.world.read hread
  | object hcalling _ =>
      have hclass := (hvalues.of_calling? hcalling).1
      exact hclass
  | bound hbound => exact .inr ((Past.declares_bound hdeclares hbound).mono run.extends_step)

/-- The statements that have been executed are formed. -/
theorem executed_step :
    ∀ execution ∈ run.step.past.executed, execution.statement.Formed Token.Genuine := by
  intro execution hexecution
  rcases List.mem_append.1 hexecution with hnow | hearlier
  · have hcontrol := h.formed.control
    rw [Run.execution] at hnow
    split at hnow
    · next statement heq =>
        rw [heq] at hcontrol
        obtain rfl := List.mem_singleton.1 hnow
        exact hcontrol
    · cases hnow
  · exact h.executed execution hearlier

/-- What a step does to the scopes and the number of instances. -/
theorem opens_step :
    run.machine.world.store.Opens run.machine.opened run.machine.step.world.store := by
  have hvalues := h.values.mono fun value hvalue => hvalue.declares.mono run.extends_step
  have hadmissible : Value.Admissible run.step.past.Declares :=
    Past.admissible h.executed_step (fun value => Past.declares_of_isPlain) fun value hvalue =>
      hvalue
  exact (Machine.comes_step hadmissible hvalues h.formed fun value => h.declares_makes).opens

theorem accounts_makes {value : Value} (hmakes : run.machine.Makes value) :
    run.step.past.Accounts run.step.machine.world.store.objects.size value := by
  have hdeclares := h.declares_makes hmakes
  cases hmakes with
  | function hcontrol =>
      obtain ⟨execution, hmem, hstatement, henv⟩ := Run.mem_executed hcontrol
      exact .inl ⟨rfl, execution, hmem, hstatement, henv⟩
  | plainClass hcontrol => exact hdeclares
  | subclass hcontrol hread => exact hdeclares
  | @object paren ownClass arguments hcalling hobstacle =>
      refine ⟨hdeclares, ?_⟩
      have hstep : run.step.machine = _ := Machine.step_eq_call hcalling
      have hsize := Machine.size_objects_call
        { run.machine with frames := run.machine.frames.tail } hobstacle paren
      rw [hstep]
      exact Nat.lt_of_lt_of_eq (Nat.lt_succ_self _) hsize.symm
  | @bound function object hbound =>
      obtain ⟨index, hindex⟩ := List.getElem?_of_mem hbound
      obtain ⟨henv, -⟩ := h.opens_step.bound hindex
      obtain ⟨outer, henv⟩ := List.head?_eq_some_iff.1 henv
      have hmethod := Past.declares_bound (h.values.mono fun value hvalue => hvalue.declares) hbound
      refine .inr ⟨hmethod.mono run.extends_step, object, _, outer, henv, ?_⟩
      show (run.past.openings ++ run.machine.opened)[_]? = _
      rw [← h.size, List.getElem?_append_right (Nat.le_add_right _ _), Nat.add_sub_cancel_left,
        hindex]

theorem step : run.step.Traced := by
  have hopens := h.opens_step
  have hvalues : run.machine.Everywhere
      (run.step.past.Accounts run.step.machine.world.store.objects.size) :=
    h.values.mono fun value hvalue => hvalue.mono run.extends_step hopens.objects
  have hadmissible : Value.Admissible
      (run.step.past.Accounts run.step.machine.world.store.objects.size) :=
    Past.admissible h.executed_step (fun value => Past.accounts_of_isPlain)
      fun value hvalue => hvalue.declares
  have hcomes := Machine.comes_step hadmissible hvalues h.formed fun value => h.accounts_makes
  refine ⟨?_, ?_, h.executed_step, hcomes.formed, hcomes.everywhere⟩
  · show (run.past.openings ++ run.machine.opened).length = run.machine.step.world.store.scopes.size
    rw [hopens.scopes, ← h.size, List.length_append]
  · intro scope function object hopening
    have hopening : (run.past.openings ++ run.machine.opened)[scope]? =
      some (.bound function object) := hopening
    by_cases hlt : scope < run.past.openings.length
    · rw [List.getElem?_append_left hlt] at hopening
      obtain ⟨henv, hthis⟩ := h.bound hopening
      exact ⟨henv, (hopens.this scope (h.size ▸ hlt)).trans hthis⟩
    · rw [List.getElem?_append_right (Nat.le_of_not_lt hlt)] at hopening
      have hsum : run.machine.world.store.scopes.size + (scope - run.past.openings.length) =
          scope := by
        rw [← h.size]
        exact Nat.add_sub_cancel' (Nat.le_of_not_lt hlt)
      exact hsum ▸ hopens.bound hopening

end Run.Traced

namespace Run

/-- A program starts with what was left. -/
theorem traced_start {past : Past} {world : World} {program : Program}
    (hprogram : program.Written) (hsize : past.openings.length = world.store.scopes.size)
    (hbound : ∀ {scope function object},
      past.openings[scope]? = some (.bound function object) →
        function.env.head? = some scope ∧
          world.store.binding? scope thisName = some (.object object))
    (hexecuted : ∀ execution ∈ past.executed, execution.statement.Formed Token.Genuine)
    (hworld : world.Everywhere (past.Accounts world.store.objects.size)) :
    (start past world program).Traced where
  size := hsize
  bound := hbound
  executed := hexecuted
  formed := ⟨hprogram.formed, fun frame hframe => by cases hframe⟩
  values := by
    have hpast : past.Extends (start past world program).past :=
      ⟨List.Subset.refl _, List.prefix_rfl⟩
    have hstart : (start past world program).machine.Everywhere
        (past.Accounts world.store.objects.size) :=
      ⟨hworld, trivial, fun frame hframe => by cases hframe⟩
    exact hstart.mono fun value hvalue => hvalue.mono hpast (Nat.le_refl _)

/-- In all runs, of programs that have been resolved and others, functions, classes and instances
come from what is on record. -/
theorem Arises.traced {run : Run} (h : run.Arises) : run.Traced := by
  induction h with
  | @first world program hstore hprogram =>
      have hglobals {scope : ScopeId} {opening : Opening}
          (hopening : Past.initial.openings[scope]? = some opening) : opening = .globals :=
        List.mem_singleton.1 (List.mem_of_getElem? hopening)
      refine traced_start hprogram ?_ ?_ (fun execution hmem => by cases hmem) ?_
      · rw [hstore]
        rfl
      · intro scope function object hopening
        cases hglobals hopening
      · constructor
        · intro scope name value hvalue
          rw [hstore] at hvalue
          obtain rfl := Store.eq_builtin_of_binding?_initial hvalue
          trivial
        · intro object name value hvalue
          rw [hstore] at hvalue
          cases hvalue
  | step _ ih => exact ih.step
  | @next run world program _ hstore hprogram ih =>
      refine traced_start hprogram ?_ ?_ ih.executed ?_
      · rw [hstore, ih.size]
      · intro scope function object hopening
        rw [hstore]
        exact ih.bound hopening
      · rw [hstore]
        exact ih.values.world.of_store (congrArg Store.scopes hstore)
          (congrArg Store.objects hstore)

end Run

end LoxLang
