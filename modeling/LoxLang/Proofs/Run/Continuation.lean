import LoxLang.Proofs.Run.Restoration

/-!
# Frames below, and statements behind

What waits below the frames of a machine has no effect on its steps before it gets the machine's
result (`Machine.step_above`).  So statements run with others behind them as they run alone; when
they come to their end the others are run in the world that they have left, and if they fail the
others are not run.
-/

namespace LoxLang

namespace Machine

/-- A run comes to one end. -/
theorem runFor_eq_of_isSome {machine : Machine} {first second : Nat}
    (h : (machine.runFor first).outcome?.isSome) (h' : (machine.runFor second).outcome?.isSome) :
    machine.runFor first = machine.runFor second := by
  rw [← runFor_of_outcome?_isSome _ second h, ← runFor_of_outcome?_isSome _ first h', ← runFor_add,
    ← runFor_add, Nat.add_comm]

/-! ## Frames below -/

/-- A machine on top of other frames. -/
def above (below : List Frame) (machine : Machine) : Machine :=
  { machine with frames := machine.frames ++ below }

section

variable (below : List Frame) (machine : Machine)

theorem settle_above (result : Except RuntimeFault Value) :
    (machine.above below).settle result = (machine.settle result).above below := by
  cases result <;> rfl

theorem call_above (paren : Token) (callee : Value) (arguments : List Value) :
    (machine.above below).call paren callee arguments =
      (machine.call paren callee arguments).above below := by
  unfold call
  rw [show (machine.above below).depth = machine.depth from rfl]
  cases callObstacle? callee arguments machine.depth with
  | some cause => rfl
  | none =>
      cases callee with
      | builtin native =>
          cases native with
          | clock => rfl
      | classValue ownClass =>
          dsimp only
          cases ownClass.initializer? <;> rfl
      | _ => rfl

theorem nextArgument_above (paren : Token) (callee : Value) (done : List Value)
    (rest : List Expr) :
    (machine.above below).nextArgument paren callee done rest =
      (machine.nextArgument paren callee done rest).above below := by
  cases rest with
  | nil => exact machine.call_above below paren callee done.reverse
  | cons argument rest => rfl

theorem evaluate_above (expression : Expr) :
    (machine.above below).evaluate expression = (machine.evaluate expression).above below := by
  cases expression with
  | «variable» occurrence => exact machine.settle_above below _
  | thisRef occurrence => exact machine.settle_above below _
  | superRef occurrence method =>
      exact settle_above below
        { machine with world := (machine.world.superMethod machine.env occurrence method).1 } _
  | _ => rfl

theorem declareClass_above (name : Token) (superclass : Option Class)
    (methods : List FunctionDecl) :
    (machine.above below).declareClass name superclass methods =
      (machine.declareClass name superclass methods).above below := by
  unfold declareClass
  dsimp only [above]
  split <;> rfl

theorem execute_above (statement : Stmt) :
    (machine.above below).execute statement = (machine.execute statement).above below := by
  cases statement with
  | classDecl name superclass methods =>
      cases superclass with
      | none => exact machine.declareClass_above below name none methods
      | some occurrence =>
          dsimp only [execute, above]
          split
          · exact machine.declareClass_above below name _ methods
          · rfl
          · rfl
  | returnValue keyword value => cases value <;> rfl
  | varDecl name initializer => cases initializer <;> rfl
  | _ => rfl

theorem receive_above (value : Value) (frame : Frame) :
    (machine.above below).receive value frame = (machine.receive value frame).above below := by
  cases frame with
  | unary operator => exact machine.settle_above below _
  | binaryRight operator left => exact machine.settle_above below _
  | logical operator right =>
      dsimp only [receive, above]
      split <;> rfl
  | assign target =>
      dsimp only [receive, above]
      split <;> rfl
  | callee paren arguments => exact machine.nextArgument_above below paren value [] arguments
  | argument paren callee done rest =>
      exact machine.nextArgument_above below paren callee (value :: done) rest
  | get name =>
      cases value with
      | object object =>
          exact settle_above below
            { machine with world := (machine.world.property object name).1 } _
      | _ => rfl
  | setObject name expression => cases value <;> rfl
  | print =>
      dsimp only [receive, above]
      split <;> rfl
  | choice thenBranch elseBranch =>
      dsimp only [receive, above]
      split
      · rfl
      · cases elseBranch <;> rfl
  | loopTest condition body =>
      dsimp only [receive, above]
      split <;> rfl
  | _ => rfl

theorem leave_above (activation : Activation) (completion : Completion) :
    (machine.above below).leave activation completion =
      (machine.leave activation completion).above below := by
  dsimp only [leave, above]
  split
  · split <;> rfl
  · split <;> rfl

theorem finish_above (completion : Completion) (frame : Frame) :
    (machine.above below).finish completion frame =
      (machine.finish completion frame).above below := by
  cases frame with
  | activation activation => exact machine.leave_above below activation completion
  | sequence rest => cases completion <;> rfl
  | loopBody condition body => cases completion <;> rfl
  | _ => rfl

theorem unwind_above (frame : Frame) :
    (machine.above below).unwind frame = (machine.unwind frame).above below := by
  cases frame <;> rfl

end

/-- As long as a machine has frames of its own or something to do, it takes the same steps on top of
other frames. -/
theorem step_above (below : List Frame) {machine : Machine} (h : ¬machine.Ended []) :
    (machine.above below).step = machine.step.above below := by
  obtain ⟨control, frames, env, depth, world⟩ := machine
  cases control with
  | evaluate expression => exact evaluate_above below _ expression
  | execute statement => exact execute_above below _ statement
  | run statements => cases statements <;> rfl
  | value value =>
      cases frames with
      | nil => exact absurd ⟨rfl, rfl⟩ h
      | cons frame frames => exact receive_above below ⟨_, frames, env, depth, world⟩ value frame
  | completed completion =>
      cases frames with
      | nil => exact absurd ⟨rfl, rfl⟩ h
      | cons frame frames =>
          exact finish_above below ⟨_, frames, env, depth, world⟩ completion frame
  | failed failure =>
      cases frames with
      | nil => exact absurd ⟨rfl, rfl⟩ h
      | cons frame frames => exact unwind_above below ⟨_, frames, env, depth, world⟩ frame

/-! ## Statements behind -/

/-- The second machine does what the first one does, and has more statements to run behind it. -/
inductive Ahead (more : List Stmt) : Machine → Machine → Prop
  | statements (rest : List Stmt) (env : Env) (depth : Nat) (world : World) :
      Ahead more ⟨.run rest, [], env, depth, world⟩ ⟨.run (rest ++ more), [], env, depth, world⟩
  | inside (inner : Machine) (rest : List Stmt) :
      Ahead more (inner.above [.sequence rest]) (inner.above [.sequence (rest ++ more)])
  | stopped {machine : Machine} : machine.Ended [] → machine.control ≠ .completed .normal →
      Ahead more machine machine

/-- The first machine has run all its statements, and the second one is about to run more. -/
def AtJoin (more : List Stmt) (first second : Machine) : Prop :=
  first.frames = [] ∧ first.control = .run [] ∧ second = { first with control := .run more }

/-- All that is left to be done at the join is to come to the end. -/
theorem AtJoin.runFor_eq {more : List Stmt} {start second : Machine} {steps budget : Nat}
    (h : AtJoin more (start.runFor steps) second) (hbudget : steps < budget) :
    start.runFor budget = { start.runFor steps with control := .completed .normal } := by
  obtain ⟨rest, rfl⟩ := Nat.exists_eq_add_of_lt hbudget
  rw [Nat.add_assoc, runFor_add]
  obtain ⟨hframes, hcontrol, -⟩ := h
  generalize start.runFor steps = machine at hframes hcontrol
  obtain ⟨control, frames, env, depth, world⟩ := machine
  obtain rfl : frames = [] := hframes
  obtain rfl : control = .run [] := hcontrol
  exact runFor_of_outcome?_isSome _ rest rfl

namespace Ahead

variable {more : List Stmt} {first second : Machine}

theorem step (h : Ahead more first second) :
    Ahead more first.step second.step ∨ AtJoin more first second := by
  cases h with
  | statements rest env depth world =>
      cases rest with
      | nil => exact .inr ⟨rfl, rfl, rfl⟩
      | cons statement rest =>
          exact .inl (.inside ⟨.execute statement, [], env, depth, world⟩ rest)
  | inside inner rest =>
      refine .inl ?_
      by_cases hended : inner.Ended []
      · obtain ⟨control, frames, env, depth, world⟩ := inner
        obtain ⟨rfl, hresult⟩ := hended
        cases control with
        | value value => exact .inside ⟨.value value, [], env, depth, world⟩ rest
        | completed completion =>
            cases completion with
            | normal => exact .statements rest env depth world
            | returned value => exact .stopped ⟨rfl, rfl⟩ (fun hnormal => by cases hnormal)
        | failed failure => exact .stopped ⟨rfl, rfl⟩ (fun hnormal => by cases hnormal)
        | _ => cases hresult
      · rw [step_above _ hended, step_above _ hended]
        exact .inside inner.step rest
  | stopped hended hcontrol =>
      refine .inl ?_
      rw [step_of_ended hended]
      exact .stopped hended hcontrol

theorem world_eq (h : Ahead more first second) : second.world = first.world := by
  cases h <;> rfl

theorem outcome?_eq (h : Ahead more first second) : second.outcome? = first.outcome? := by
  cases h with
  | statements rest env depth world => rfl
  | stopped _ _ => rfl
  | inside inner rest =>
      obtain ⟨control, frames, env, depth, world⟩ := inner
      cases frames <;> rfl

theorem outcome?_ne_normal (h : Ahead more first second) :
    first.outcome? ≠ some (.ok .normal) := by
  intro hnormal
  cases h with
  | statements rest env depth world => cases hnormal
  | inside inner rest =>
      obtain ⟨control, frames, env, depth, world⟩ := inner
      cases frames <;> cases hnormal
  | stopped hended hcontrol => exact hcontrol (of_outcome?_ok hnormal).2

/-- The machines stay together, up to the join if there is one. -/
theorem runFor (h : Ahead more first second) (budget : Nat) :
    Ahead more (first.runFor budget) (second.runFor budget) ∨
      ∃ steps < budget, AtJoin more (first.runFor steps) (second.runFor steps) := by
  induction budget generalizing first second with
  | zero => exact .inl h
  | succ budget ih =>
      rw [Machine.runFor, Machine.runFor, h.outcome?_eq]
      cases houtcome : first.outcome? with
      | some outcome => exact .inl h
      | none =>
          have houtcome' : second.outcome? = none := h.outcome?_eq.trans houtcome
          rcases h.step with hstep | hjoin
          · refine (ih hstep).imp id ?_
            rintro ⟨steps, hsteps, hjoin⟩
            refine ⟨steps + 1, Nat.succ_lt_succ hsteps, ?_⟩
            rw [Machine.runFor, Machine.runFor, houtcome, houtcome']
            exact hjoin
          · exact .inr ⟨0, Nat.succ_pos budget, hjoin⟩

end Ahead

section

variable (world : World) {env : Env} (first second : List Stmt)

theorem ahead_start (env : Env) :
    Ahead second (start world env first) (start world env (first ++ second)) :=
  .statements first env 0 world

/-- Behind statements that have come to their end the others run in the world that is left. -/
theorem runFor_append_of_normal {budget : Nat}
    (h : ((start world env first).runFor budget).outcome? = some (.ok .normal)) :
    ∃ steps, ∀ more, (start world env (first ++ second)).runFor (steps + more) =
      (start ((start world env first).runFor budget).world env second).runFor more := by
  rcases (ahead_start world first second env).runFor budget with
    hahead | ⟨steps, hsteps, hjoin⟩
  · exact absurd h hahead.outcome?_ne_normal
  · refine ⟨steps, fun more => ?_⟩
    have hback : (start world env first).LeadsBack [] env 0 := ⟨[], rfl, rfl, rfl⟩
    obtain ⟨inner, hinner, henv, hdepth⟩ := (hback.runFor steps).1
    have hended := hjoin.runFor_eq hsteps
    obtain ⟨hframes, hcontrol, hsecond⟩ := hjoin
    -- At the join the environment and the depth are those of the start.
    obtain rfl : inner = [] := by
      rw [hframes, List.append_nil] at hinner
      exact hinner.symm
    rw [runFor_add, hsecond, hended]
    generalize (start world env first).runFor steps = machine at hframes henv hdepth
    obtain ⟨control, frames, inside, depth, left⟩ := machine
    obtain rfl : frames = [] := hframes
    obtain rfl : inside = env := henv
    obtain rfl : depth = 0 := hdepth
    rfl

/-- Behind statements that have not come to their end the others are not run. -/
theorem runFor_append_of_ne_normal {budget : Nat}
    (h : ((start world env first).runFor budget).outcome? ≠ some (.ok .normal)) :
    ((start world env (first ++ second)).runFor budget).outcome? =
        ((start world env first).runFor budget).outcome? ∧
      ((start world env (first ++ second)).runFor budget).world =
        ((start world env first).runFor budget).world := by
  rcases (ahead_start world first second env).runFor budget with
    hahead | ⟨steps, hsteps, hjoin⟩
  · exact ⟨hahead.outcome?_eq, hahead.world_eq⟩
  · refine absurd ?_ h
    rw [hjoin.runFor_eq hsteps, outcome?]
    dsimp only
    rw [hjoin.1]

end

end Machine

end LoxLang
