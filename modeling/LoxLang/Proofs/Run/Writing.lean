import LoxLang.Proofs.Run.Continuation

/-!
# What a machine writes

A machine looks at its output only when it prints.  Every other step is the same whatever has been
written and however much room is left (`Machine.step_withOutput`).  So a machine with room for a
number of bytes takes the same steps as one that may write as much as it likes, up to the first
print that does not fit; there it writes what fits and fails, and then nothing but the failure
happens any more.
-/

namespace LoxLang

/-! ## Worlds with another output -/

namespace World

/-- A world with another output. -/
def withOutput (world : World) (output : Output) : World :=
  { world with output := output }

section

variable (world : World) (output : Output)

theorem closeAll_withOutput (env : Env) (methods : List FunctionDecl) :
    (world.withOutput output).closeAll env methods =
      ((world.closeAll env methods).1.withOutput output, (world.closeAll env methods).2) := by
  induction methods generalizing world with
  | nil => rfl
  | cons method rest ih =>
      have hclose : (world.withOutput output).close env method method.isInitializer =
          ((world.close env method method.isInitializer).1.withOutput output,
            (world.close env method method.isInitializer).2) := rfl
      rw [closeAll, hclose]
      dsimp only
      rw [ih]
      rfl

theorem makeClass_withOutput (env : Env) (name : String) (superclass : Option Class)
    (methods : List FunctionDecl) :
    (world.withOutput output).makeClass env name superclass methods =
      ((world.makeClass env name superclass methods).1.withOutput output,
        (world.makeClass env name superclass methods).2) := by
  cases superclass with
  | none =>
      rw [makeClass.eq_def]
      dsimp only
      rw [closeAll_withOutput]
      rfl
  | some superclass =>
      let opened := world.store.newScope [(superName, .classValue superclass)]
      have hclosures : ((world.withOutput output).withStore opened.1).closeAll (opened.2 :: env)
          methods = _ :=
        (world.withStore opened.1).closeAll_withOutput output (opened.2 :: env) methods
      rw [makeClass.eq_def, makeClass.eq_def]
      dsimp only
      rw [show (world.withOutput output).store = world.store from rfl, hclosures]
      rfl

theorem property_withOutput (object : Instance) (name : Token) :
    (world.withOutput output).property object name =
      ((world.property object name).1.withOutput output, (world.property object name).2) := by
  dsimp only [property, withOutput]
  split
  · rfl
  · split <;> rfl

theorem superMethod_withOutput (env : Env) (occurrence : Occurrence) (method : Token) :
    (world.withOutput output).superMethod env occurrence method =
      ((world.superMethod env occurrence method).1.withOutput output,
        (world.superMethod env occurrence method).2) := by
  dsimp only [superMethod, withOutput]
  split
  · rfl
  · split
    · rfl
    · rfl
    · split <;> rfl
    · rfl

end

end World

/-! ## Steps -/

namespace Machine

/-- A machine with another output. -/
def withOutput (machine : Machine) (output : Output) : Machine :=
  { machine with world := machine.world.withOutput output }

/-- The value that the next step prints. -/
def printing? (machine : Machine) : Option Value :=
  match machine.control, machine.frames with
  | .value value, .print :: _ => some value
  | _, _ => none

section

variable (machine : Machine) (output : Output)

theorem settle_withOutput (result : Except RuntimeFault Value) :
    (machine.withOutput output).settle result = (machine.settle result).withOutput output := by
  cases result <;> rfl

theorem call_withOutput (paren : Token) (callee : Value) (arguments : List Value) :
    (machine.withOutput output).call paren callee arguments =
      (machine.call paren callee arguments).withOutput output := by
  unfold call
  rw [show (machine.withOutput output).depth = machine.depth from rfl]
  cases callObstacle? callee arguments machine.depth with
  | some cause => rfl
  | none =>
      cases callee with
      | builtin native =>
          cases native with
          | clock => rfl
      | classValue ownClass =>
          dsimp only
          cases ownClass.initializer? <;> rfl
      | _ => rfl

theorem nextArgument_withOutput (paren : Token) (callee : Value) (done : List Value)
    (rest : List Expr) :
    (machine.withOutput output).nextArgument paren callee done rest =
      (machine.nextArgument paren callee done rest).withOutput output := by
  cases rest with
  | nil => exact machine.call_withOutput output paren callee done.reverse
  | cons argument rest => rfl

theorem evaluate_withOutput (expression : Expr) :
    (machine.withOutput output).evaluate expression =
      (machine.evaluate expression).withOutput output := by
  cases expression with
  | «variable» occurrence => exact machine.settle_withOutput output _
  | thisRef occurrence => exact machine.settle_withOutput output _
  | superRef occurrence method =>
      have hsuper := machine.world.superMethod_withOutput output machine.env occurrence method
      dsimp only [evaluate, withOutput]
      rw [hsuper]
      exact settle_withOutput
        { machine with world := (machine.world.superMethod machine.env occurrence method).1 }
        output _
  | _ => rfl

theorem declareClass_withOutput (name : Token) (superclass : Option Class)
    (methods : List FunctionDecl) :
    (machine.withOutput output).declareClass name superclass methods =
      (machine.declareClass name superclass methods).withOutput output := by
  have hmade : ((machine.withOutput output).world.define machine.env name.lexeme .nil).makeClass
      machine.env name.lexeme superclass methods = _ :=
    (machine.world.define machine.env name.lexeme .nil).makeClass_withOutput output machine.env
      name.lexeme superclass methods
  unfold declareClass
  dsimp only
  rw [show (machine.withOutput output).env = machine.env from rfl, hmade]
  dsimp only [World.withOutput]
  split <;> rfl

theorem execute_withOutput (statement : Stmt) :
    (machine.withOutput output).execute statement =
      (machine.execute statement).withOutput output := by
  cases statement with
  | classDecl name superclass methods =>
      cases superclass with
      | none => exact machine.declareClass_withOutput output name none methods
      | some occurrence =>
          have hread : (machine.withOutput output).world.read (machine.withOutput output).env
              occurrence = machine.world.read machine.env occurrence := rfl
          dsimp only [execute]
          rw [hread]
          split
          · exact machine.declareClass_withOutput output name _ methods
          · rfl
          · rfl
  | returnValue keyword value => cases value <;> rfl
  | varDecl name initializer => cases initializer <;> rfl
  | _ => rfl

theorem receive_withOutput (value : Value) {frame : Frame} (h : frame ≠ .print) :
    (machine.withOutput output).receive value frame =
      (machine.receive value frame).withOutput output := by
  cases frame with
  | unary operator => exact machine.settle_withOutput output _
  | binaryRight operator left => exact machine.settle_withOutput output _
  | logical operator right =>
      dsimp only [receive]
      split <;> rfl
  | assign target =>
      have htarget : (machine.withOutput output).world.target (machine.withOutput output).env
          target = machine.world.target machine.env target := rfl
      dsimp only [receive]
      rw [htarget]
      split <;> rfl
  | callee paren arguments => exact machine.nextArgument_withOutput output paren value [] arguments
  | argument paren callee done rest =>
      exact machine.nextArgument_withOutput output paren callee (value :: done) rest
  | get name =>
      cases value with
      | object object =>
          have hproperty := machine.world.property_withOutput output object name
          dsimp only [receive, withOutput]
          rw [hproperty]
          exact settle_withOutput
            { machine with world := (machine.world.property object name).1 } output _
      | _ => rfl
  | setObject name expression => cases value <;> rfl
  | print => exact absurd rfl h
  | choice thenBranch elseBranch =>
      dsimp only [receive]
      split
      · rfl
      · cases elseBranch <;> rfl
  | loopTest condition body =>
      dsimp only [receive]
      split <;> rfl
  | _ => rfl

theorem leave_withOutput (activation : Activation) (completion : Completion) :
    (machine.withOutput output).leave activation completion =
      (machine.leave activation completion).withOutput output := by
  dsimp only [leave, withOutput, World.withOutput]
  split
  · split <;> rfl
  · split <;> rfl

theorem finish_withOutput (completion : Completion) (frame : Frame) :
    (machine.withOutput output).finish completion frame =
      (machine.finish completion frame).withOutput output := by
  cases frame with
  | activation activation => exact machine.leave_withOutput output activation completion
  | sequence rest => cases completion <;> rfl
  | loopBody condition body => cases completion <;> rfl
  | _ => rfl

theorem unwind_withOutput (frame : Frame) :
    (machine.withOutput output).unwind frame = (machine.unwind frame).withOutput output := by
  cases frame <;> rfl

end

/-- A step that prints nothing does not depend on the output. -/
theorem step_withOutput {machine : Machine} (h : machine.printing? = none) (output : Output) :
    (machine.withOutput output).step = machine.step.withOutput output := by
  obtain ⟨control, frames, env, depth, world⟩ := machine
  cases control with
  | evaluate expression => exact evaluate_withOutput _ output expression
  | execute statement => exact execute_withOutput _ output statement
  | run statements => cases statements <;> rfl
  | value value =>
      cases frames with
      | nil => rfl
      | cons frame frames =>
          have hframe : frame ≠ .print := by
            rintro rfl
            cases h
          exact receive_withOutput ⟨_, frames, env, depth, world⟩ output value hframe
  | completed completion =>
      cases frames with
      | nil => rfl
      | cons frame frames =>
          exact finish_withOutput ⟨_, frames, env, depth, world⟩ output completion frame
  | failed failure =>
      cases frames with
      | nil => rfl
      | cons frame frames => exact unwind_withOutput ⟨_, frames, env, depth, world⟩ output frame

/-- A step that prints nothing leaves the output as it is. -/
theorem output_step {machine : Machine} (h : machine.printing? = none) :
    machine.step.world.output = machine.world.output := by
  have hsame : machine.step = machine.step.withOutput machine.world.output :=
    step_withOutput h machine.world.output
  rw [hsame]
  rfl

/-- The machine behind a print, with the output that is left and the control that follows. -/
def printed (machine : Machine) (control : Control) (output : Output) : Machine :=
  { machine with
    control := control
    frames := machine.frames.tail
    world := machine.world.withOutput output }

/-- A step that prints a value writes the text of the value on a line of its own, and does nothing
else but fail if there is no room for all of it. -/
theorem step_printing {machine : Machine} {value : Value} (h : machine.printing? = some value) :
    let written := machine.world.output.write (value.text ++ "\n")
    machine.step = machine.printed
      (if written.2 then .completed .normal else .failed .outputFull) written.1 := by
  intro written
  obtain ⟨control, frames, env, depth, world⟩ := machine
  unfold printing? at h
  dsimp only at h
  split at h
  · next frames =>
      cases h
      have hwritten : world.print value = (world.withOutput written.1, written.2) := rfl
      dsimp only [step, receive]
      rw [hwritten]
      cases written.2 <;> rfl
  · cases h

theorem output_step_printing {machine : Machine} {value : Value}
    (h : machine.printing? = some value) :
    machine.step.world.output = (machine.world.output.write (value.text ++ "\n")).1 := by
  rw [step_printing h]
  rfl

end Machine

/-! ## More and more output -/

/-- An output to which nothing has happened but that more was written. -/
def Output.Continues (first second : Output) : Prop :=
  second.capacity = first.capacity ∧ ∃ more, second.written = first.written ++ more

namespace Output.Continues

variable {first second third : Output}

theorem refl (output : Output) : output.Continues output :=
  ⟨rfl, .empty, ByteArray.append_empty.symm⟩

theorem trans (h : first.Continues second) (h' : second.Continues third) :
    first.Continues third := by
  obtain ⟨hcapacity, more, hwritten⟩ := h
  obtain ⟨hcapacity', more', hwritten'⟩ := h'
  refine ⟨hcapacity'.trans hcapacity, more ++ more', ?_⟩
  rw [hwritten', hwritten, ByteArray.append_assoc]

theorem size_le (h : first.Continues second) : first.written.size ≤ second.written.size := by
  obtain ⟨-, more, hwritten⟩ := h
  rw [hwritten, ByteArray.size_append]
  exact Nat.le_add_right _ _

/-- The bytes that are there already stay the first ones. -/
theorem extract_eq (h : first.Continues second) {limit : Nat}
    (hlimit : limit ≤ first.written.size) :
    second.written.extract 0 limit = first.written.extract 0 limit := by
  obtain ⟨-, more, hwritten⟩ := h
  have hnone : more.extract (0 - first.written.size) (limit - first.written.size) = .empty := by
    apply ByteArray.extract_eq_empty_iff.2
    omega
  rw [hwritten, ByteArray.extract_append, hnone, ByteArray.append_empty]

end Output.Continues

theorem Output.continues_write (output : Output) (text : String) :
    output.Continues (output.write text).1 := by
  refine ⟨output.capacity_write text, ?_⟩
  unfold write
  split
  · exact ⟨_, rfl⟩
  · dsimp only
    split
    · exact ⟨_, rfl⟩
    · exact ⟨_, rfl⟩

namespace Machine

theorem continues_step (machine : Machine) :
    machine.world.output.Continues machine.step.world.output := by
  cases hprinting : machine.printing? with
  | none =>
      rw [output_step hprinting]
      exact .refl _
  | some value =>
      rw [output_step_printing hprinting]
      exact machine.world.output.continues_write _

theorem continues_runFor (machine : Machine) (budget : Nat) :
    machine.world.output.Continues (machine.runFor budget).world.output := by
  induction budget generalizing machine with
  | zero => exact .refl _
  | succ budget ih =>
      rw [runFor]
      split
      · exact .refl _
      · exact machine.continues_step.trans (ih machine.step)

/-- The longer a run, the more it has written. -/
theorem continues_of_le (machine : Machine) {first second : Nat} (h : first ≤ second) :
    (machine.runFor first).world.output.Continues (machine.runFor second).world.output := by
  obtain ⟨more, rfl⟩ := Nat.exists_eq_add_of_le h
  rw [runFor_add]
  exact continues_runFor _ more

end Machine

/-! ## Limits -/

/-- The same output under a limit. -/
def Output.limitedTo (output : Output) (limit : Nat) : Output :=
  { output with capacity := some limit }

/-- The first bytes of an output under a limit, so that nothing more fits. -/
def Output.cutTo (output : Output) (limit : Nat) : Output :=
  ⟨output.written.extract 0 limit, some limit⟩

/-- Under a limit a text is written as without one if it fits, and else as far as it does. -/
theorem Output.write_limitedTo {output : Output} (hnone : output.capacity = none) {limit : Nat}
    (hroom : output.written.size ≤ limit) (text : String) :
    (output.limitedTo limit).write text =
      if (output.write text).1.written.size ≤ limit then
        ((output.write text).1.limitedTo limit, true)
      else
        ((output.write text).1.cutTo limit, false) := by
  have hextract : output.written.extract 0 limit = output.written :=
    calc
      output.written.extract 0 limit =
          (output.written.extract 0 output.written.size).extract 0 limit := by
        rw [ByteArray.extract_zero_size]
      _ = output.written.extract 0 output.written.size := by
        rw [ByteArray.extract_extract, Nat.zero_add, Nat.zero_add, Nat.min_eq_right hroom]
      _ = output.written := ByteArray.extract_zero_size
  have hfits : text.toUTF8.size ≤ limit - output.written.size ↔
      output.written.size + text.toUTF8.size ≤ limit := by omega
  rw [write_of_capacity_eq_none output text hnone]
  dsimp only [write, limitedTo, cutTo]
  rw [ByteArray.size_append, ByteArray.extract_append, hextract, Nat.zero_sub]
  simp only [hfits]

namespace Machine

/-- The same machine with a limit for all that it writes. -/
def limitedTo (machine : Machine) (limit : Nat) : Machine :=
  machine.withOutput (machine.world.output.limitedTo limit)

/-- The machine that has failed because what it was to print does not fit. -/
def cutOff (machine : Machine) (limit : Nat) : Machine :=
  machine.printed (.failed .outputFull) (machine.step.world.output.cutTo limit)

section

variable {machine : Machine} {limit : Nat} (hnone : machine.world.output.capacity = none)

include hnone

/-- A machine with a limit prints if there is room, and fails if there is not. -/
theorem step_limitedTo_of_printing {value : Value} (h : machine.printing? = some value)
    (hroom : machine.world.output.written.size ≤ limit) :
    (machine.limitedTo limit).step =
      if machine.step.world.output.written.size ≤ limit then
        machine.step.limitedTo limit
      else
        machine.cutOff limit := by
  have h' : (machine.limitedTo limit).printing? = some value := h
  have hwrite : (machine.limitedTo limit).world.output.write _ = _ :=
    Output.write_limitedTo hnone hroom (value.text ++ "\n")
  have houtput := output_step_printing h
  rw [← houtput] at hwrite
  rw [step_printing h', hwrite]
  split
  · rw [step_printing h, Output.write_of_capacity_eq_none _ _ hnone]
    rfl
  · rfl

/-- As long as there is room a machine with a limit takes the same steps. -/
theorem step_limitedTo (hfits : machine.step.world.output.written.size ≤ limit) :
    (machine.limitedTo limit).step = machine.step.limitedTo limit := by
  cases hprinting : machine.printing? with
  | none => rw [limitedTo, limitedTo, step_withOutput hprinting, output_step hprinting]
  | some value =>
      have hroom := Nat.le_trans machine.continues_step.size_le hfits
      rw [step_limitedTo_of_printing hnone hprinting hroom, if_pos hfits]

/-- Where there is no room any more a machine with a limit fails. -/
theorem step_limitedTo_of_lt (hroom : machine.world.output.written.size ≤ limit)
    (hfull : limit < machine.step.world.output.written.size) :
    (machine.limitedTo limit).step = machine.cutOff limit := by
  cases hprinting : machine.printing? with
  | none =>
      rw [output_step hprinting] at hfull
      exact absurd hroom (Nat.not_le.2 hfull)
  | some value =>
      rw [step_limitedTo_of_printing hnone hprinting hroom, if_neg (Nat.not_le.2 hfull)]

/-- As long as there is room a machine with a limit runs in the same way. -/
theorem runFor_limitedTo {budget : Nat}
    (hfits : (machine.runFor budget).world.output.written.size ≤ limit) :
    (machine.limitedTo limit).runFor budget = (machine.runFor budget).limitedTo limit := by
  induction budget generalizing machine with
  | zero => rfl
  | succ budget ih =>
      have houtcome : (machine.limitedTo limit).outcome? = machine.outcome? := rfl
      rw [runFor, runFor, houtcome]
      rw [runFor] at hfits
      split
      · rfl
      · next hrunning =>
          rw [hrunning] at hfits
          have hstep := Nat.le_trans (machine.step.continues_runFor budget).size_le hfits
          rw [step_limitedTo hnone hstep]
          exact ih (machine.continues_step.1.trans hnone) hfits

end

/-- A failure is taken out of the innermost frame, and nothing else happens. -/
theorem step_of_failed {machine : Machine} {failure : Failure}
    (h : machine.control = .failed failure) :
    machine.step.control = .failed failure ∧ machine.step.frames = machine.frames.tail ∧
      machine.step.world = machine.world := by
  obtain ⟨control, frames, env, depth, world⟩ := machine
  obtain rfl : control = .failed failure := h
  cases frames with
  | nil => exact ⟨rfl, rfl, rfl⟩
  | cons frame frames => cases frame <;> exact ⟨rfl, rfl, rfl⟩

theorem outcome?_of_failed {machine : Machine} {failure : Failure}
    (h : machine.control = .failed failure) (hframes : machine.frames = []) :
    machine.outcome? = some (.error failure) := by
  rw [outcome?, h, hframes]

/-- A failure leaves the world as it is, and it is the end of the run when it has been taken out of
all frames. -/
theorem runFor_of_failed {machine : Machine} {failure : Failure}
    (h : machine.control = .failed failure) (budget : Nat) :
    (machine.runFor budget).world = machine.world ∧
      (machine.frames.length ≤ budget →
        (machine.runFor budget).outcome? = some (.error failure)) := by
  induction budget generalizing machine with
  | zero =>
      refine ⟨rfl, fun hlength => outcome?_of_failed h ?_⟩
      exact List.eq_nil_of_length_eq_zero (Nat.le_zero.1 hlength)
  | succ budget ih =>
      by_cases hframes : machine.frames = []
      · have houtcome := outcome?_of_failed h hframes
        rw [runFor_of_outcome?_isSome machine _ (Option.isSome_of_eq_some houtcome)]
        exact ⟨rfl, fun _ => houtcome⟩
      · obtain ⟨hcontrol, htail, hworld⟩ := step_of_failed h
        have hrunning : machine.outcome? = none := by
          rw [outcome?.eq_def, h]
          split <;> simp_all
        obtain ⟨hleft, hended⟩ := ih hcontrol
        rw [runFor, hrunning]
        refine ⟨hleft.trans hworld, fun hlength => hended ?_⟩
        rw [htail, List.length_tail]
        exact Nat.sub_le_of_le_add hlength

/-- A run that writes more than a limit has a last moment at which all fits. -/
theorem exists_last_moment {machine : Machine} {limit budget : Nat}
    (hroom : machine.world.output.written.size ≤ limit)
    (hfull : limit < (machine.runFor budget).world.output.written.size) :
    ∃ moment < budget, (machine.runFor moment).world.output.written.size ≤ limit ∧
      limit < (machine.runFor (moment + 1)).world.output.written.size := by
  induction budget with
  | zero => exact absurd hroom (Nat.not_le.2 hfull)
  | succ budget ih =>
      by_cases hbefore : (machine.runFor budget).world.output.written.size ≤ limit
      · exact ⟨budget, Nat.lt_succ_self budget, hbefore, hfull⟩
      · obtain ⟨moment, hmoment, hlast⟩ := ih (Nat.lt_of_not_le hbefore)
        exact ⟨moment, Nat.lt_succ_of_lt hmoment, hlast⟩

/-- A machine with a limit runs as without one up to the moment at which a print does not fit any
more, and then fails.  It has written as many bytes as it may. -/
theorem runFor_limitedTo_of_lt {machine : Machine} {limit budget : Nat}
    (hnone : machine.world.output.capacity = none)
    (hroom : machine.world.output.written.size ≤ limit)
    (hfull : limit < (machine.runFor budget).world.output.written.size) :
    ∃ moment < budget,
      (machine.runFor moment).world.output.written.size ≤ limit ∧
      limit < (machine.runFor (moment + 1)).world.output.written.size ∧
      ((machine.runFor moment).cutOff limit).world = (machine.runFor moment).world.withOutput
        ((machine.runFor budget).world.output.cutTo limit) ∧
      ∀ later, (machine.limitedTo limit).runFor (moment + 1 + later) =
        ((machine.runFor moment).cutOff limit).runFor later := by
  obtain ⟨moment, hmoment, hbefore, hafter⟩ := exists_last_moment hroom hfull
  have hnone' : (machine.runFor moment).world.output.capacity = none :=
    (machine.continues_runFor moment).1.trans hnone
  -- The run is not at its end at that moment, since more is written later.
  have hrunning : (machine.runFor moment).outcome? = none := by
    cases houtcome : (machine.runFor moment).outcome? with
    | none => rfl
    | some outcome =>
        rw [runFor_add, runFor_of_outcome?_isSome _ 1 (Option.isSome_of_eq_some houtcome)] at hafter
        exact absurd hbefore (Nat.not_le.2 hafter)
  have hnext : machine.runFor (moment + 1) = (machine.runFor moment).step := by
    rw [runFor_add, runFor, hrunning]
    rfl
  have hcut : (machine.runFor (moment + 1)).world.output.cutTo limit =
      (machine.runFor budget).world.output.cutTo limit := by
    have hlonger := machine.continues_of_le (Nat.succ_le_of_lt hmoment)
    rw [Output.cutTo, Output.cutTo, hlonger.extract_eq (Nat.le_of_lt hafter)]
  refine ⟨moment, hmoment, hbefore, hafter, ?_, fun later => ?_⟩
  · rw [← hcut, hnext]
    rfl
  · have hrunning' : ((machine.runFor moment).limitedTo limit).outcome? = none := hrunning
    rw [Nat.add_assoc, runFor_add, runFor_limitedTo hnone hbefore, Nat.add_comm 1 later, runFor,
      hrunning']
    rw [hnext] at hafter
    dsimp only
    rw [step_limitedTo_of_lt hnone' hbefore hafter]

end Machine

end LoxLang
