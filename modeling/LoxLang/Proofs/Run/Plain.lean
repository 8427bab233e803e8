import LoxLang.Proofs.Run.Activation
import LoxLang.Proofs.Run.Writing

/-!
# Expressions among plain values

As long as no variable holds a function of a program, a class or an instance, an expression calls
nothing but built-in functions.  So its evaluation always comes to an end, to such a plain value or
to a fault, and writes nothing (`Machine.settles_evaluate`); and a program that prints one
expression writes the line of its value, or nothing if there is a fault
(`Machine.exists_prints`).
-/

namespace LoxLang

/-- A value that is not a function of a program, a class or an instance. -/
def Value.IsPlain : Value → Prop
  | function _ => False
  | classValue _ => False
  | object _ => False
  | _ => True

/-- A world all of whose variables have plain values. -/
def World.IsPlain (world : World) : Prop :=
  ∀ scope name value, world.store.binding? scope name = some value → value.IsPlain

theorem of_mapError_eq_ok {ε ε' α : Type} {change : ε → ε'} {result : Except ε α} {value : α}
    (h : result.mapError change = .ok value) : result = .ok value := by
  cases result with
  | ok found => exact congrArg Except.ok (Except.ok.inj h)
  | error fault => cases h

namespace Value

theorem isPlain_ofLiteral (literal : Literal) : (ofLiteral literal).IsPlain := by
  cases literal <;> trivial

theorem isPlain_of_unary {operator : Kind} {operand value : Value}
    (h : operand.unary operator = .ok value) : value.IsPlain := by
  unfold unary at h
  split at h
  · cases h
    trivial
  · split at h
    · cases h
      trivial
    · cases h
  · cases h

theorem isPlain_of_add {left right value : Value} (h : left.add right = .ok value) :
    value.IsPlain := by
  unfold add at h
  split at h
  · cases h
    trivial
  · cases h
    trivial
  · cases h

theorem isPlain_of_arithmetic {operator : Kind} {left right : Float} {value : Value}
    (h : arithmetic operator left right = .ok value) : value.IsPlain := by
  unfold arithmetic at h
  split at h <;> cases h <;> trivial

theorem isPlain_of_binary {operator : Kind} {left right value : Value}
    (h : left.binary operator right = .ok value) : value.IsPlain := by
  unfold binary at h
  split at h
  · cases h
    trivial
  · cases h
    trivial
  · exact isPlain_of_add h
  · split at h
    · exact isPlain_of_arithmetic h
    · cases h

/-- Of plain values only the built-in functions can be called. -/
theorem IsPlain.eq_builtin {callee : Value} (h : callee.IsPlain) {arguments : List Value}
    {depth : Nat} (hcall : callObstacle? callee arguments depth = none) :
    ∃ native, callee = .builtin native := by
  cases callee with
  | builtin native => exact ⟨native, rfl⟩
  | function closure => exact h.elim
  | classValue ownClass => exact h.elim
  | object instanceValue => exact h.elim
  | _ => cases hcall

end Value

namespace World

variable {world : World}

theorem isPlain_initial (capacity : Option Nat) (reading : Nat → Float) :
    (initial capacity reading).IsPlain := by
  intro scope name value hvalue
  obtain rfl := Store.eq_builtin_of_binding?_initial hvalue
  trivial

theorem IsPlain.of_store (h : world.IsPlain) {other : World} (hstore : other.store = world.store) :
    other.IsPlain := by
  unfold IsPlain
  rw [hstore]
  exact h

theorem IsPlain.set (h : world.IsPlain) {value : Value} (hvalue : value.IsPlain) (scope : ScopeId)
    (name : String) : (world.set scope name value).IsPlain := by
  intro other key found hfound
  have hbinding := world.store.binding?_define scope other name key value
  rw [show (world.set scope name value).store.binding? other key = _ from hbinding] at hfound
  split at hfound
  · cases hfound
    exact hvalue
  · exact h _ _ _ hfound

theorem IsPlain.getAt? (h : world.IsPlain) {env : Env} {distance : Nat} {name : String}
    {value : Value} (hvalue : world.store.getAt? env distance name = some value) :
    value.IsPlain := by
  obtain ⟨scope, hbinding⟩ := Store.exists_binding?_of_getAt? hvalue
  exact h scope name value hbinding

theorem IsPlain.read (h : world.IsPlain) {env : Env} {occurrence : Occurrence} {value : Value}
    (hread : world.read env occurrence = .ok value) : value.IsPlain := by
  obtain ⟨scope, hbinding⟩ := World.exists_binding?_of_read hread
  exact h scope _ _ hbinding

/-- Where there are no classes no method is found by `super`. -/
theorem IsPlain.superMethod (h : world.IsPlain) (env : Env) (occurrence : Occurrence)
    (method : Token) :
    ∃ fault, world.superMethod env occurrence method = (world, .error fault) := by
  unfold World.superMethod
  split
  · exact ⟨_, rfl⟩
  · split
    · exact ⟨_, rfl⟩
    · exact ⟨_, rfl⟩
    · next hclass _ => exact (h.getAt? hclass).elim
    · exact ⟨_, rfl⟩

end World

namespace Machine

/-- A machine comes to a plain value in front of some frames, or to a fault.  Until then it writes
nothing and gives variables plain values only. -/
inductive Settles (frames : List Frame) (output : Output) : Machine → Prop
  | value {value : Value} {env : Env} {depth : Nat} {world : World} :
      value.IsPlain → world.IsPlain → world.output = output →
      Settles frames output ⟨.value value, frames, env, depth, world⟩
  | fault {machine : Machine} {fault : RuntimeFault} :
      machine.control = .failed (.fault fault) → machine.world.output = output →
      Settles frames output machine
  | step {machine : Machine} : Settles frames output machine.step →
      Settles frames output machine

namespace Settles

variable {frame : Frame} {frames below : List Frame} {output : Output} {env : Env} {depth : Nat}
  {world : World} {control : Control}

/-- What has a value or a fault at once. -/
theorem settle {result : Except RuntimeFault Value} (hworld : world.IsPlain)
    (houtput : world.output = output) (hresult : ∀ value, result = .ok value → value.IsPlain) :
    Settles frames output (Machine.settle ⟨control, frames, env, depth, world⟩ result) := by
  cases result with
  | ok value => exact .value (hresult value rfl) hworld houtput
  | error fault => exact .fault rfl houtput

/-- The value of a part goes to the frame that waits for it. -/
theorem andThen {machine : Machine} (h : machine.Settles (frame :: frames) output)
    (hframe : ∀ {value : Value} {env : Env} {depth : Nat} {world : World}, value.IsPlain →
      world.IsPlain → world.output = output →
      Settles below output (receive ⟨.value value, frames, env, depth, world⟩ value frame)) :
    machine.Settles below output := by
  induction h with
  | value hvalue hworld houtput => exact .step (hframe hvalue hworld houtput)
  | fault hcontrol houtput => exact .fault hcontrol houtput
  | step _ ih => exact .step ih

/-- A call among plain values. -/
theorem call {callee : Value} (hcallee : callee.IsPlain) (hworld : world.IsPlain)
    (houtput : world.output = output) (paren : Token) (arguments : List Value) :
    Settles frames output
      (Machine.call ⟨control, frames, env, depth, world⟩ paren callee arguments) := by
  unfold Machine.call
  split
  · exact .fault rfl houtput
  · next hcall =>
      obtain ⟨native, rfl⟩ := hcallee.eq_builtin hcall
      cases native with
      | clock => exact .value trivial (hworld.of_store rfl) houtput

/-- An assignment of a plain value. -/
theorem assign {value : Value} (hvalue : value.IsPlain) (hworld : world.IsPlain)
    (houtput : world.output = output) (target : Occurrence) :
    Settles frames output
      (receive ⟨control, frames, env, depth, world⟩ value (.assign target)) := by
  dsimp only [receive]
  split
  · exact .value hvalue (hworld.set hvalue _ _) houtput
  · exact .fault rfl houtput

end Settles

mutual

/-- Among plain values every expression has a value or a fault, and nothing is written. -/
theorem settles_evaluate {frames : List Frame} {output : Output} {env : Env} {depth : Nat}
    {world : World} (hworld : world.IsPlain) (houtput : world.output = output)
    (expression : Expr) :
    Settles frames output ⟨.evaluate expression, frames, env, depth, world⟩ := by
  apply Settles.step
  cases expression with
  | literal literal => exact .value (Value.isPlain_ofLiteral literal) hworld houtput
  | grouping inner => exact settles_evaluate hworld houtput inner
  | unary operator operand =>
      apply (settles_evaluate hworld houtput operand).andThen
      intro value env depth world hvalue hworld houtput
      apply Settles.settle hworld houtput
      intro result hresult
      exact Value.isPlain_of_unary (of_mapError_eq_ok hresult)
  | binary operator left right =>
      apply (settles_evaluate hworld houtput left).andThen
      intro first env depth world hfirst hworld houtput
      apply (settles_evaluate hworld houtput right).andThen
      intro second env depth world hsecond hworld houtput
      apply Settles.settle hworld houtput
      intro result hresult
      exact Value.isPlain_of_binary (of_mapError_eq_ok hresult)
  | logical operator left right =>
      apply (settles_evaluate hworld houtput left).andThen
      intro value env depth world hvalue hworld houtput
      dsimp only [receive]
      split
      · exact .value hvalue hworld houtput
      · exact settles_evaluate hworld houtput right
  | «variable» occurrence =>
      apply Settles.settle hworld houtput
      intro value hvalue
      exact hworld.read hvalue
  | assign target value =>
      apply (settles_evaluate hworld houtput value).andThen
      intro value env depth world hvalue hworld houtput
      exact .assign hvalue hworld houtput target
  | call callee paren arguments =>
      apply (settles_evaluate hworld houtput callee).andThen
      intro value env depth world hvalue hworld houtput
      exact settles_nextArgument hvalue hworld houtput paren [] arguments
  | get object name =>
      apply (settles_evaluate hworld houtput object).andThen
      intro value env depth world hvalue hworld houtput
      cases value with
      | object found => exact hvalue.elim
      | _ => exact .fault rfl houtput
  | set object name value =>
      apply (settles_evaluate hworld houtput object).andThen
      intro value env depth world hvalue hworld houtput
      cases value with
      | object found => exact hvalue.elim
      | _ => exact .fault rfl houtput
  | thisRef occurrence =>
      apply Settles.settle hworld houtput
      intro value hvalue
      exact hworld.read hvalue
  | superRef occurrence method =>
      obtain ⟨fault, hmethod⟩ := hworld.superMethod env occurrence method
      rw [Machine.step, evaluate, hmethod]
      exact .fault rfl houtput

/-- So has a call whose arguments are still to be evaluated. -/
theorem settles_nextArgument {frames : List Frame} {output : Output} {env : Env} {depth : Nat}
    {world : World} {control : Control} {callee : Value} (hcallee : callee.IsPlain)
    (hworld : world.IsPlain) (houtput : world.output = output) (paren : Token)
    (done : List Value) (rest : List Expr) :
    Settles frames output
      (nextArgument ⟨control, frames, env, depth, world⟩ paren callee done rest) := by
  cases rest with
  | nil => exact .call hcallee hworld houtput paren done.reverse
  | cons argument rest =>
      apply (settles_evaluate hworld houtput argument).andThen
      intro value env depth world hvalue hworld houtput
      exact settles_nextArgument hcallee hworld houtput paren (value :: done) rest

end

end Machine

/-! ## Programs that print one expression -/

/-- What is written when the result of an expression is printed: the line of its value, and nothing
if there is a fault. -/
def printedText : Except RuntimeFault Value → String
  | .ok value => value.text ++ "\n"
  | .error _ => ""

/-- How a program ends that prints the result of an expression. -/
def printedOutcome : Except RuntimeFault Value → Except Failure Completion
  | .ok _ => .ok .normal
  | .error fault => .error (.fault fault)

namespace Machine

/-- A run has come to the end of printing the result of an expression. -/
structure Prints (output : Output) (result : Except RuntimeFault Value) (machine : Machine) :
    Prop where
  outcome : machine.outcome? = some (printedOutcome result)
  written : machine.world.output = (output.write (printedText result)).1

variable {machine : Machine} {output : Output} {result : Except RuntimeFault Value}

/-- A machine whose run has ended takes no steps. -/
theorem step_of_outcome? (h : machine.outcome?.isSome) : machine.step = machine := by
  obtain ⟨control, frames, env, depth, world⟩ := machine
  unfold outcome? at h
  dsimp only at h
  split at h
  · rfl
  · rfl
  · cases h

theorem runFor_succ (machine : Machine) (budget : Nat) :
    machine.runFor (budget + 1) = machine.step.runFor budget := by
  by_cases hended : machine.outcome?.isSome
  · rw [step_of_outcome? hended, runFor_of_outcome?_isSome machine _ hended,
      runFor_of_outcome?_isSome machine _ hended]
  · rw [Bool.not_eq_true, Option.isSome_eq_false_iff, Option.isNone_iff_eq_none] at hended
    rw [runFor, hended]

/-- A fault adds nothing to the output. -/
theorem write_printedText_error (hcapacity : output.capacity = none) (fault : RuntimeFault) :
    (output.write (printedText (.error fault))).1 = output := by
  have hempty : output.written ++ "".toUTF8 = output.written := ByteArray.append_empty
  rw [printedText, Output.write_of_capacity_eq_none _ _ hcapacity, hempty]

/-- A machine that is about to print, and has nothing else to do, ends. -/
theorem Settles.exists_prints (h : machine.Settles [.print, .sequence []] output)
    (hcapacity : output.capacity = none) :
    ∃ enough result, (machine.runFor enough).Prints output result := by
  induction h with
  | @value value env depth world hvalue hworld houtput =>
      subst houtput
      have hprint : world.print value =
          ({ world with output := (world.output.write (printedText (.ok value))).1 }, true) := by
        dsimp only [World.print]
        rw [printedText, Output.write_of_capacity_eq_none _ _ hcapacity]
      have hstep : Machine.step ⟨.value value, [.print, .sequence []], env, depth, world⟩ =
          ⟨.completed .normal, [.sequence []], env, depth,
            { world with output := (world.output.write (printedText (.ok value))).1 }⟩ := by
        rw [Machine.step, receive, hprint]
      refine ⟨3, .ok value, ?_⟩
      rw [runFor_succ, hstep]
      exact ⟨rfl, rfl⟩
  | @fault machine fault hcontrol houtput =>
      obtain ⟨hworld, hended⟩ := runFor_of_failed hcontrol machine.frames.length
      refine ⟨machine.frames.length, .error fault, hended (Nat.le_refl _), ?_⟩
      rw [hworld, houtput, write_printedText_error hcapacity]
  | @step machine _ ih =>
      obtain ⟨enough, result, hprints⟩ := ih
      refine ⟨enough + 1, result, ?_⟩
      rw [runFor_succ]
      exact hprints

/-- A program that prints one expression ends in a world of plain values, if there is no limit to
the output. -/
theorem exists_prints {world : World} (hworld : world.IsPlain)
    (hcapacity : world.output.capacity = none) (env : Env) (expression : Expr) :
    ∃ enough result, ∀ budget, enough ≤ budget →
      ((start world env [.print expression]).runFor budget).Prints world.output result := by
  -- Two steps lead to the expression, with the frames of the statement below it.
  have hsettles : (start world env [.print expression]).Settles [.print, .sequence []]
      world.output :=
    .step (.step (settles_evaluate hworld rfl expression))
  obtain ⟨enough, result, hprints⟩ := hsettles.exists_prints hcapacity
  have hended : ((start world env [.print expression]).runFor enough).outcome?.isSome :=
    Option.isSome_of_eq_some hprints.outcome
  refine ⟨enough, result, ?_⟩
  intro budget hbudget
  rw [← Nat.add_sub_of_le hbudget, runFor_add, runFor_of_outcome?_isSome _ _ hended]
  exact hprints

end Machine

end LoxLang
