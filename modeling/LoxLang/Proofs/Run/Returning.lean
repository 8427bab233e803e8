import LoxLang.Proofs.Run.Restoration

/-!
# Returning

A `return` ends the call around it.  Where there is none outside the functions of a program, as the
static rules have it, no run of the program ends with a `return` on its way out.
-/

namespace LoxLang

/-! ## Statements that may return -/

mutual

/-- Whether a statement holds a `return` outside the functions that are declared in it. -/
def Stmt.returns : Stmt → Bool
  | .block body => Stmt.returnsAny body
  | .conditional _ thenBranch none => thenBranch.returns
  | .conditional _ thenBranch (some elseBranch) => thenBranch.returns || elseBranch.returns
  | .returnValue _ _ => true
  | .whileLoop _ body => body.returns
  | _ => false

/-- Whether one of several statements does. -/
def Stmt.returnsAny : List Stmt → Bool
  | [] => false
  | statement :: rest => statement.returns || Stmt.returnsAny rest

end

mutual

/-- A `return` outside all functions breaks a static rule. -/
theorem Stmt.fault_of_returns {context : Context} (hcontext : context.function = .outside) :
    (statement : Stmt) → (scopes : Scopes) → statement.returns →
      ∃ keyword, .fault ⟨.returnInFunction, keyword⟩ ∈ statement.findings context scopes
  | .block body, scopes, h => Stmt.fault_of_returnsAny hcontext body ([] :: scopes) h
  | .conditional condition thenBranch none, scopes, h => by
      obtain ⟨keyword, hfault⟩ := thenBranch.fault_of_returns hcontext scopes h
      exact ⟨keyword, List.mem_append_left _ (List.mem_append_right _ hfault)⟩
  | .conditional condition thenBranch (some elseBranch), scopes, h => by
      rcases Bool.or_eq_true_iff.1 h with hthen | helse
      · obtain ⟨keyword, hfault⟩ := thenBranch.fault_of_returns hcontext scopes hthen
        exact ⟨keyword, List.mem_append_left _ (List.mem_append_right _ hfault)⟩
      · obtain ⟨keyword, hfault⟩ := elseBranch.fault_of_returns hcontext scopes helse
        exact ⟨keyword, List.mem_append_right _ hfault⟩
  | .returnValue keyword value, scopes, _ => by
      refine ⟨keyword, List.mem_append_left _ ?_⟩
      rw [Context.returning, if_pos hcontext]
      exact List.mem_cons_self
  | .whileLoop condition body, scopes, h => by
      obtain ⟨keyword, hfault⟩ := body.fault_of_returns hcontext scopes h
      exact ⟨keyword, List.mem_append_right _ hfault⟩
  | .classDecl _ _ _, _, h => by cases h
  | .expression _, _, h => by cases h
  | .function _, _, h => by cases h
  | .print _, _, h => by cases h
  | .varDecl _ _, _, h => by cases h

theorem Stmt.fault_of_returnsAny {context : Context} (hcontext : context.function = .outside) :
    (statements : List Stmt) → (scopes : Scopes) → Stmt.returnsAny statements →
      ∃ keyword, .fault ⟨.returnInFunction, keyword⟩ ∈ Stmt.findingsAll context scopes statements
  | statement :: rest, scopes, h => by
      rcases Bool.or_eq_true_iff.1 h with hfirst | hrest
      · obtain ⟨keyword, hfault⟩ := statement.fault_of_returns hcontext scopes hfirst
        exact ⟨keyword, List.mem_append_left _ hfault⟩
      · obtain ⟨keyword, hfault⟩ :=
          Stmt.fault_of_returnsAny hcontext rest (scopes.after statement) hrest
        exact ⟨keyword, List.mem_append_right _ hfault⟩

end

/-- A program without static faults does not return outside its functions. -/
theorem Program.returnsAny_eq_false {program : Program} (h : program.staticFaults = []) :
    Stmt.returnsAny program = false := by
  refine Bool.eq_false_iff.2 fun hreturns => ?_
  let context : Context := ⟨.outside, .outside⟩
  have hcontext : context.function = .outside := rfl
  obtain ⟨keyword, hfault⟩ := Stmt.fault_of_returnsAny hcontext program [] hreturns
  have hmem : ⟨.returnInFunction, keyword⟩ ∈ program.staticFaults :=
    List.mem_filterMap.2 ⟨_, hfault, rfl⟩
  rw [h] at hmem
  cases hmem

/-! ## Steps -/

/-- Whether a frame may pass a `return` on when it gets a result. -/
def Frame.returns : Frame → Bool
  | .choice thenBranch none => thenBranch.returns
  | .choice thenBranch (some elseBranch) => thenBranch.returns || elseBranch.returns
  | .loopTest _ body => body.returns
  | .loopBody _ body => body.returns
  | .returning => true
  | .sequence rest => Stmt.returnsAny rest
  | _ => false

/-- Whether a `return` is on its way or may be met. -/
def Control.returns : Control → Bool
  | .execute statement => statement.returns
  | .run statements => Stmt.returnsAny statements
  | .completed (.returned _) => true
  | _ => false

namespace Machine

/-- What a machine that does not return may come to when the frames `stay` are kept: a call may have
been entered, in which it may return. -/
inductive Goes (stay : List Frame) (next : Machine) : Prop
  | same : next.frames = stay → next.control.returns = false → Goes stay next
  | pushed {frame : Frame} : next.frames = frame :: stay → frame.returns = false →
      next.control.returns = false → Goes stay next
  | called {activation : Activation} : next.frames = .activation activation :: stay →
      Goes stay next

section

variable (machine : Machine)

theorem goes_settle (result : Except RuntimeFault Value) :
    Goes machine.frames (machine.settle result) := by
  cases result with
  | ok value => exact .same rfl rfl
  | error fault => exact .same rfl rfl

theorem goes_call (paren : Token) (callee : Value) (arguments : List Value) :
    Goes machine.frames (machine.call paren callee arguments) := by
  unfold call
  cases callObstacle? callee arguments machine.depth with
  | some cause => exact .same rfl rfl
  | none =>
      cases callee with
      | builtin native =>
          cases native with
          | clock => exact .same rfl rfl
      | function closure => exact .called rfl
      | classValue ownClass =>
          dsimp only
          cases ownClass.initializer? with
          | none => exact .same rfl rfl
          | some method => exact .called rfl
      | _ => exact .same rfl rfl

theorem goes_nextArgument (paren : Token) (callee : Value) (done : List Value)
    (rest : List Expr) : Goes machine.frames (machine.nextArgument paren callee done rest) := by
  cases rest with
  | nil => exact machine.goes_call paren callee done.reverse
  | cons argument rest => exact .pushed rfl rfl rfl

theorem goes_evaluate (expression : Expr) :
    Goes machine.frames (machine.evaluate expression) := by
  cases expression with
  | literal value => exact .same rfl rfl
  | grouping inner => exact .same rfl rfl
  | «variable» occurrence => exact machine.goes_settle _
  | thisRef occurrence => exact machine.goes_settle _
  | superRef occurrence method =>
      exact goes_settle
        { machine with world := (machine.world.superMethod machine.env occurrence method).1 } _
  | _ => exact .pushed rfl rfl rfl

theorem goes_declareClass (name : Token) (superclass : Option Class)
    (methods : List FunctionDecl) :
    Goes machine.frames (machine.declareClass name superclass methods) := by
  unfold declareClass
  dsimp only
  split
  · exact .same rfl rfl
  · exact .same rfl rfl

theorem goes_execute {statement : Stmt} (h : statement.returns = false) :
    Goes machine.frames (machine.execute statement) := by
  cases statement with
  | block body => exact .pushed rfl rfl h
  | classDecl name superclass methods =>
      cases superclass with
      | none => exact machine.goes_declareClass name none methods
      | some occurrence =>
          dsimp only [execute]
          split
          · exact machine.goes_declareClass name _ methods
          · exact .same rfl rfl
          · exact .same rfl rfl
  | function declaration => exact .same rfl rfl
  | conditional condition thenBranch elseBranch =>
      cases elseBranch with
      | none => exact .pushed rfl h rfl
      | some elseBranch => exact .pushed rfl h rfl
  | returnValue keyword value => cases h
  | varDecl name initializer =>
      cases initializer with
      | none => exact .same rfl rfl
      | some value => exact .pushed rfl rfl rfl
  | whileLoop condition body => exact .pushed rfl h rfl
  | _ => exact .pushed rfl rfl rfl

theorem goes_receive (value : Value) {frame : Frame} (h : frame.returns = false)
    (hcontrol : machine.control = .value value) :
    Goes machine.frames (machine.receive value frame) := by
  have hreturns : machine.control.returns = false := by
    rw [hcontrol]
    rfl
  cases frame with
  | unary operator => exact machine.goes_settle _
  | binaryRight operator left => exact machine.goes_settle _
  | logical operator right =>
      unfold receive
      dsimp only
      split
      · exact .same rfl rfl
      · exact .same rfl rfl
  | assign target =>
      unfold receive
      dsimp only
      split
      · exact .same rfl rfl
      · exact .same rfl rfl
  | callee paren arguments => exact machine.goes_nextArgument _ _ _ _
  | argument paren callee done rest => exact machine.goes_nextArgument _ _ _ _
  | get name =>
      cases value with
      | object object =>
          exact goes_settle { machine with world := (machine.world.property object name).1 } _
      | _ => exact .same rfl rfl
  | setObject name expression =>
      cases value with
      | object object => exact .pushed rfl rfl rfl
      | _ => exact .same rfl rfl
  | print =>
      unfold receive
      dsimp only
      split
      · exact .same rfl rfl
      · exact .same rfl rfl
  | choice thenBranch elseBranch =>
      cases elseBranch with
      | none =>
          unfold receive
          dsimp only
          split
          · exact .same rfl h
          · exact .same rfl rfl
      | some elseBranch =>
          obtain ⟨hthen, helse⟩ := Bool.or_eq_false_iff.1 h
          unfold receive
          dsimp only
          split
          · exact .same rfl hthen
          · exact .same rfl helse
  | loopTest condition body =>
      unfold receive
      dsimp only
      split
      · exact .pushed rfl h h
      · exact .same rfl rfl
  | binaryLeft operator right => exact .pushed rfl rfl rfl
  | setValue name object => exact .same rfl rfl
  | expression => exact .same rfl rfl
  | define name => exact .same rfl rfl
  | returning => cases h
  | _ => exact .pushed rfl h hreturns

/-- The end of a call has a value, whether the body has returned or not. -/
theorem goes_leave (activation : Activation) (completion : Completion) :
    Goes machine.frames (machine.leave activation completion) := by
  unfold leave
  dsimp only
  split
  · split
    · exact .same rfl rfl
    · exact .same rfl rfl
  · split
    · exact .same rfl rfl
    · exact .same rfl rfl

theorem goes_finish {frame : Frame} (h : frame.returns = false)
    (hcontrol : machine.control = .completed .normal) :
    Goes machine.frames (machine.finish .normal frame) := by
  have hreturns : machine.control.returns = false := by
    rw [hcontrol]
    rfl
  cases frame with
  | sequence rest => exact .same rfl h
  | block outer => exact .same rfl hreturns
  | loopBody condition body => exact .pushed rfl h rfl
  | activation activation => exact machine.goes_leave activation .normal
  | _ => exact .pushed rfl h hreturns

theorem goes_unwind {failure : Failure} (frame : Frame)
    (hcontrol : machine.control = .failed failure) :
    Goes machine.frames (machine.unwind frame) := by
  have hreturns : machine.control.returns = false := by
    rw [hcontrol]
    rfl
  cases frame <;> exact .same rfl hreturns

end

/-! ## Runs -/

/-- A machine does not return: neither its control nor a frame does, up to those of the outermost
call. -/
def Stays (machine : Machine) : Prop :=
  ∃ outer, (∀ frame ∈ outer, frame.returns = false) ∧
    (machine.frames = outer ∧ machine.control.returns = false ∨
      ∃ inner activation, machine.frames = inner ++ .activation activation :: outer)

theorem Goes.stays {stay : List Frame} {next : Machine} (h : Goes stay next)
    (hstay : ∀ frame ∈ stay, frame.returns = false) : next.Stays := by
  cases h with
  | same hframes hcontrol => exact ⟨stay, hstay, .inl ⟨hframes, hcontrol⟩⟩
  | @pushed frame hframes hframe hcontrol =>
      exact ⟨frame :: stay, List.forall_mem_cons.2 ⟨hframe, hstay⟩, .inl ⟨hframes, hcontrol⟩⟩
  | called hframes => exact ⟨stay, hstay, .inr ⟨[], _, hframes⟩⟩

/-- Outside all calls. -/
theorem Stays.step_outside {machine : Machine}
    (hframes : ∀ frame ∈ machine.frames, frame.returns = false)
    (hcontrol : machine.control.returns = false) : machine.step.Stays := by
  obtain ⟨control, frames, env, depth, world⟩ := machine
  cases control with
  | evaluate expression => exact (goes_evaluate _ expression).stays hframes
  | execute statement => exact (goes_execute _ hcontrol).stays hframes
  | run statements =>
      cases statements with
      | nil => exact (Goes.same rfl rfl : Goes frames _).stays hframes
      | cons statement rest =>
          obtain ⟨hfirst, hrest⟩ := Bool.or_eq_false_iff.1 hcontrol
          have hgoes : Goes frames
              ⟨.execute statement, .sequence rest :: frames, env, depth, world⟩ :=
            .pushed rfl hrest hfirst
          exact hgoes.stays hframes
  | value value =>
      cases frames with
      | nil => exact ⟨[], hframes, .inl ⟨rfl, rfl⟩⟩
      | cons frame frames =>
          obtain ⟨hframe, hrest⟩ := List.forall_mem_cons.1 hframes
          exact (goes_receive ⟨_, frames, env, depth, world⟩ value hframe rfl).stays hrest
  | completed completion =>
      cases completion with
      | returned value => cases hcontrol
      | normal =>
          cases frames with
          | nil => exact ⟨[], hframes, .inl ⟨rfl, rfl⟩⟩
          | cons frame frames =>
              obtain ⟨hframe, hrest⟩ := List.forall_mem_cons.1 hframes
              exact (goes_finish ⟨_, frames, env, depth, world⟩ hframe rfl).stays hrest
  | failed failure =>
      cases frames with
      | nil => exact ⟨[], hframes, .inl ⟨rfl, rfl⟩⟩
      | cons frame frames =>
          obtain ⟨-, hrest⟩ := List.forall_mem_cons.1 hframes
          exact (goes_unwind ⟨_, frames, env, depth, world⟩ frame rfl).stays hrest

/-- Inside a call all is well until it is left, and then it has a value or has failed. -/
theorem Stays.step_inside {machine : Machine} {inner outer : List Frame} {activation : Activation}
    (hcalls : Frame.calls machine.frames ≤ machine.depth)
    (hframes : machine.frames = inner ++ .activation activation :: outer)
    (houter : ∀ frame ∈ outer, frame.returns = false) : machine.step.Stays := by
  by_cases hresult : machine.control.isResult
  · cases inner with
    | cons frame inner =>
        have hcalled : Frame.calls [frame] ≤ machine.depth := by
          refine Nat.le_trans ?_ hcalls
          rw [hframes]
          exact List.Sublist.countP_le (List.singleton_sublist.2 List.mem_cons_self)
        obtain ⟨pushed, hpushed, -⟩ := machine.exchanges_step_result hresult hframes hcalled
        refine ⟨outer, houter, .inr ⟨pushed ++ inner, activation, ?_⟩⟩
        rw [hpushed, List.append_assoc]
        rfl
    | nil =>
        obtain ⟨control, frames, env, depth, world⟩ := machine
        obtain rfl : frames = .activation activation :: outer := hframes
        cases control with
        | value value => exact ⟨outer, houter, .inr ⟨[], activation, rfl⟩⟩
        | completed completion => exact (goes_leave _ activation completion).stays houter
        | failed failure =>
            let left : Machine := ⟨.failed failure, outer, env, depth, world⟩
            exact (goes_unwind left (.activation activation) rfl).stays houter
        | _ => cases hresult
  · obtain ⟨pushed, hpushed, -⟩ := machine.exchanges_step (Bool.eq_false_iff.2 hresult)
    refine ⟨outer, houter, .inr ⟨pushed ++ inner, activation, ?_⟩⟩
    rw [hpushed, hframes, List.append_assoc]

theorem Stays.step {machine : Machine} (h : machine.Stays)
    (hcalls : Frame.calls machine.frames ≤ machine.depth) : machine.step.Stays := by
  obtain ⟨outer, houter, ⟨rfl, hcontrol⟩ | ⟨inner, activation, hframes⟩⟩ := h
  · exact .step_outside houter hcontrol
  · exact .step_inside hcalls hframes houter

theorem Stays.runFor {machine : Machine} (h : machine.Stays) {env : Env}
    (hback : machine.LeadsBack [] env 0) (budget : Nat) : (machine.runFor budget).Stays := by
  induction budget generalizing machine with
  | zero => exact h
  | succ budget ih =>
      rw [Machine.runFor]
      split
      · exact h
      · by_cases hended : machine.Ended []
        · rw [step_of_ended hended]
          exact ih h hback
        · have hcalls : machine.depth = Frame.calls machine.frames := by
            obtain ⟨inner, hframes, -, hdepth⟩ := hback
            rw [hframes, hdepth, List.append_nil, Nat.zero_add]
          exact ih (h.step (Nat.le_of_eq hcalls.symm)) (hback.step hended).1

/-- A program without static faults never ends with a `return`. -/
theorem outcome?_start_ne_returned {program : Program} (h : program.staticFaults = [])
    (world : World) (env : Env) (budget : Nat) (value : Value) :
    ((start world env program).runFor budget).outcome? ≠ some (.ok (.returned value)) := by
  have hstart : (start world env program).Stays :=
    ⟨[], fun _ hframe => (by cases hframe), .inl ⟨rfl, Program.returnsAny_eq_false h⟩⟩
  have hback : (start world env program).LeadsBack [] env 0 := ⟨[], rfl, rfl, rfl⟩
  intro houtcome
  obtain ⟨hnone, hreturned⟩ := of_outcome?_ok houtcome
  obtain ⟨outer, -, ⟨-, hcontrol⟩ | ⟨inner, activation, hframes⟩⟩ := hstart.runFor hback budget
  · rw [hreturned] at hcontrol
    cases hcontrol
  · rw [hnone] at hframes
    cases inner <;> cases hframes

end Machine

end LoxLang
