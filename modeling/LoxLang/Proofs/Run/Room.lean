import LoxLang.Proofs.Run.Writing

/-!
# Runs without a limit

Only a step that prints can find no room for what it writes.  So where the output has no limit, a
run fails by faults of its program and by nothing else (`Machine.exists_fault_of_outcome`).
-/

namespace LoxLang

namespace Machine

/-- There has been no room for the output. -/
def IsFull (machine : Machine) : Prop :=
  machine.control = .failed .outputFull

variable {machine : Machine}

/-! ## Steps -/

theorem not_isFull_settle (result : Except RuntimeFault Value) :
    ¬(machine.settle result).IsFull := by
  cases result with
  | ok value => exact nofun
  | error fault => exact nofun

theorem not_isFull_call (paren : Token) (callee : Value) (arguments : List Value) :
    ¬(machine.call paren callee arguments).IsFull := by
  unfold call
  split
  · exact nofun
  · split
    · exact nofun
    · exact nofun
    · dsimp only
      split <;> exact nofun
    · exact nofun

theorem not_isFull_nextArgument (paren : Token) (callee : Value) (done : List Value)
    (rest : List Expr) : ¬(machine.nextArgument paren callee done rest).IsFull := by
  cases rest with
  | nil => exact not_isFull_call paren callee done.reverse
  | cons argument rest => exact nofun

theorem not_isFull_evaluate (expression : Expr) : ¬(machine.evaluate expression).IsFull := by
  cases expression with
  | «variable» occurrence => exact not_isFull_settle _
  | thisRef occurrence => exact not_isFull_settle _
  | superRef occurrence method => exact not_isFull_settle _
  | _ => exact nofun

theorem not_isFull_declareClass (name : Token) (superclass : Option Class)
    (methods : List FunctionDecl) : ¬(machine.declareClass name superclass methods).IsFull := by
  unfold declareClass
  dsimp only
  split <;> exact nofun

theorem not_isFull_execute (statement : Stmt) : ¬(machine.execute statement).IsFull := by
  cases statement with
  | classDecl name clause methods =>
      cases clause with
      | none => exact not_isFull_declareClass name none methods
      | some occurrence =>
          dsimp only [execute]
          split
          · exact not_isFull_declareClass name _ methods
          · exact nofun
          · exact nofun
  | returnValue keyword value => cases value <;> exact nofun
  | varDecl name initializer => cases initializer <;> exact nofun
  | _ => exact nofun

theorem not_isFull_receive {value : Value} {frame : Frame} (hcontrol : ¬machine.IsFull)
    (hframe : frame ≠ .print) : ¬(machine.receive value frame).IsFull := by
  cases frame with
  | unary operator => exact not_isFull_settle _
  | binaryRight operator left => exact not_isFull_settle _
  | logical operator right =>
      dsimp only [receive]
      split <;> exact nofun
  | assign target =>
      dsimp only [receive]
      split <;> exact nofun
  | callee paren arguments => exact not_isFull_nextArgument paren value [] arguments
  | argument paren callee done rest =>
      exact not_isFull_nextArgument paren callee (value :: done) rest
  | get name =>
      cases value with
      | object object => exact not_isFull_settle _
      | _ => exact nofun
  | setObject name expression =>
      cases value with
      | object object => exact nofun
      | _ => exact nofun
  | print => exact absurd rfl hframe
  | choice thenBranch elseBranch =>
      dsimp only [receive]
      split
      · exact nofun
      · cases elseBranch <;> exact nofun
  | loopTest condition body =>
      dsimp only [receive]
      split <;> exact nofun
  | setValue name object => exact nofun
  | binaryLeft operator right => exact nofun
  | expression => exact nofun
  | define name => exact nofun
  | returning => exact nofun
  | _ => exact hcontrol

theorem not_isFull_finish {completion : Completion} {frame : Frame} (hcontrol : ¬machine.IsFull) :
    ¬(machine.finish completion frame).IsFull := by
  cases frame with
  | sequence rest =>
      cases completion with
      | normal => exact nofun
      | returned value => exact hcontrol
  | loopBody condition body =>
      cases completion with
      | normal => exact nofun
      | returned value => exact hcontrol
  | activation activation =>
      dsimp only [finish, leave]
      split
      · split
        · exact nofun
        · exact nofun
      · split
        · exact nofun
        · exact nofun
  | _ => exact hcontrol

/-- Where there is no limit, a step does not find that there is no room. -/
theorem not_isFull_step (hcapacity : machine.world.output.capacity = none)
    (h : ¬machine.IsFull) : ¬machine.step.IsFull := by
  cases hprinting : machine.printing? with
  | some value =>
      rw [step_printing hprinting, Output.write_of_capacity_eq_none _ _ hcapacity]
      exact nofun
  | none =>
      obtain ⟨control, frames, env, depth, world⟩ := machine
      cases control with
      | evaluate expression => exact not_isFull_evaluate expression
      | execute statement => exact not_isFull_execute statement
      | run statements => cases statements <;> exact nofun
      | value value =>
          cases frames with
          | nil => exact nofun
          | cons frame frames =>
              have hframe : frame ≠ .print := by
                rintro rfl
                cases hprinting
              exact not_isFull_receive nofun hframe
      | completed completion =>
          cases frames with
          | nil => exact nofun
          | cons frame frames => exact not_isFull_finish nofun
      | failed failure =>
          let machine : Machine := ⟨.failed failure, frames, env, depth, world⟩
          have hfailed : machine.control = .failed failure := rfl
          intro hfull
          exact h ((step_of_failed hfailed).1.symm.trans hfull)

/-! ## Runs -/

theorem not_isFull_runFor (hcapacity : machine.world.output.capacity = none)
    (h : ¬machine.IsFull) (budget : Nat) : ¬(machine.runFor budget).IsFull := by
  induction budget generalizing machine with
  | zero => exact h
  | succ budget ih =>
      rw [runFor]
      split
      · exact h
      · exact ih (machine.continues_step.1.trans hcapacity) (not_isFull_step hcapacity h)

theorem control_of_outcome?_error {failure : Failure}
    (h : machine.outcome? = some (.error failure)) : machine.control = .failed failure := by
  obtain ⟨control, frames, env, depth, world⟩ := machine
  unfold outcome? at h
  dsimp only at h
  split at h
  · cases h
  · cases h
    rfl
  · cases h

/-- The failure of a program that may write what it likes is a fault. -/
theorem exists_fault_of_outcome {world : World} {env : Env} {program : List Stmt} {budget : Nat}
    {failure : Failure} (hcapacity : world.output.capacity = none)
    (h : ((start world env program).runFor budget).outcome? = some (.error failure)) :
    ∃ fault, failure = .fault fault := by
  have hstart : ¬(start world env program).IsFull := nofun
  have hroom : ¬((start world env program).runFor budget).IsFull :=
    not_isFull_runFor hcapacity hstart budget
  have hfailed := control_of_outcome?_error h
  cases failure with
  | fault fault => exact ⟨fault, rfl⟩
  | outputFull => exact absurd hfailed hroom

end Machine

end LoxLang
