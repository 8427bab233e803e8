import LoxLang.Diagnostic
import LoxLang.Machine.Step

/-!
# What is restored at the end of a part

The frames say to which environment a machine goes back when it has left them (`Frame.home`), and
how many calls are under way (`Frame.calls`).  A step takes at most one frame off and puts at most
one on, and both accounts stay as they are (`Machine.Exchanges`).  So the work on a part, however it
ends, ends in the environment and at the depth at which it began.

In a run that starts without calls the depth is therefore the number of calls under way.
-/

namespace LoxLang

namespace Frame

/-- The environment in which a machine is when it has left some frames. -/
def home (env : Env) : List Frame → Env
  | [] => env
  | .block outer :: rest => home outer rest
  | .activation ended :: rest => home ended.caller rest
  | _ :: rest => home env rest

/-- Whether a frame waits for the end of a call. -/
def isCall : Frame → Bool
  | .activation _ => true
  | _ => false

/-- How many calls some frames wait for. -/
def calls (frames : List Frame) : Nat :=
  frames.countP isCall

theorem home_append (env : Env) (inner outer : List Frame) :
    home env (inner ++ outer) = home (home env inner) outer := by
  induction inner generalizing env with
  | nil => rfl
  | cons frame inner ih => cases frame <;> exact ih _

theorem calls_append (inner outer : List Frame) :
    calls (inner ++ outer) = calls inner + calls outer :=
  List.countP_append

end Frame

/-- Whether a part has come to its end, with a value, a completion or a failure. -/
def Control.isResult : Control → Bool
  | .value _ => true
  | .completed _ => true
  | .failed _ => true
  | _ => false

namespace Machine

/-! ## Steps -/

/-- From a machine to another one some frames are taken off and others are put on, in front of the
frames that stay.  Both lead back to the same environment, and the depth changes by the number of
calls that are entered or left.  A call is only entered below the limit. -/
def Exchanges (machine : Machine) (popped stay : List Frame) (next : Machine) : Prop :=
  ∃ pushed, next.frames = pushed ++ stay ∧
    Frame.home next.env pushed = Frame.home machine.env popped ∧
    next.depth + Frame.calls popped = machine.depth + Frame.calls pushed ∧
    next.depth ≤ max machine.depth callLimit

section

variable {machine next : Machine}

/-- A machine that only has other things to do and another world. -/
theorem exchanges_of_same (hframes : next.frames = machine.frames) (henv : next.env = machine.env)
    (hdepth : next.depth = machine.depth) : machine.Exchanges [] machine.frames next := by
  refine ⟨[], hframes, henv, ?_, ?_⟩
  · rw [hdepth]
  · rw [hdepth]
    exact Nat.le_max_left _ _

/-- A frame that waits for a part in the same environment. -/
theorem exchanges_of_pushed {frame : Frame} (hframes : next.frames = frame :: machine.frames)
    (henv : Frame.home next.env [frame] = machine.env) (hcall : frame.isCall = false)
    (hdepth : next.depth = machine.depth) : machine.Exchanges [] machine.frames next := by
  refine ⟨[frame], hframes, henv, ?_, ?_⟩
  · rw [hdepth, Frame.calls, Frame.calls, List.countP_cons_of_neg (by simp [hcall])]
  · rw [hdepth]
    exact Nat.le_max_left _ _

variable (machine)

theorem exchanges_settle (result : Except RuntimeFault Value) :
    machine.Exchanges [] machine.frames (machine.settle result) := by
  cases result with
  | ok value => exact exchanges_of_same rfl rfl rfl
  | error fault => exact exchanges_of_same rfl rfl rfl

/-- A call goes back to the environment of its caller. -/
theorem exchanges_enter (callee : Closure) (arguments : List Value) (made : Option Instance)
    (h : machine.depth < callLimit) :
    machine.Exchanges [] machine.frames (machine.enter callee arguments made) := by
  refine ⟨[.activation ⟨machine.env, callee, made⟩], rfl, rfl, rfl, ?_⟩
  exact Nat.le_trans h (Nat.le_max_right _ _)

theorem exchanges_call (paren : Token) (callee : Value) (arguments : List Value) :
    machine.Exchanges [] machine.frames (machine.call paren callee arguments) := by
  unfold call
  cases hobstacle : callObstacle? callee arguments machine.depth with
  | some cause => exact exchanges_of_same rfl rfl rfl
  | none =>
      have hdepth := (callObstacle?_eq_none_iff.1 hobstacle).2
      cases callee with
      | builtin native =>
          cases native with
          | clock => exact exchanges_of_same rfl rfl rfl
      | function closure => exact machine.exchanges_enter closure arguments none hdepth
      | classValue ownClass =>
          dsimp only
          cases ownClass.initializer? with
          | none => exact exchanges_of_same rfl rfl rfl
          | some method =>
              -- The instance and the bound method are made in the world, where nothing waits.
              exact exchanges_enter { machine with world := _ } _ arguments _ hdepth
      | _ => exact exchanges_of_same rfl rfl rfl

theorem exchanges_nextArgument (paren : Token) (callee : Value) (done : List Value)
    (rest : List Expr) :
    machine.Exchanges [] machine.frames (machine.nextArgument paren callee done rest) := by
  cases rest with
  | nil => exact machine.exchanges_call paren callee done.reverse
  | cons argument rest => exact exchanges_of_pushed rfl rfl rfl rfl

theorem exchanges_evaluate (expression : Expr) :
    machine.Exchanges [] machine.frames (machine.evaluate expression) := by
  cases expression with
  | literal value => exact exchanges_of_same rfl rfl rfl
  | grouping inner => exact exchanges_of_same rfl rfl rfl
  | «variable» occurrence => exact machine.exchanges_settle _
  | thisRef occurrence => exact machine.exchanges_settle _
  | superRef occurrence method => exact exchanges_settle { machine with world := _ } _
  | _ => exact exchanges_of_pushed rfl rfl rfl rfl

theorem exchanges_declareClass (name : Token) (superclass : Option Class)
    (methods : List FunctionDecl) :
    machine.Exchanges [] machine.frames (machine.declareClass name superclass methods) := by
  unfold declareClass
  dsimp only
  split
  · exact exchanges_of_same rfl rfl rfl
  · exact exchanges_of_same rfl rfl rfl

theorem exchanges_execute (statement : Stmt) :
    machine.Exchanges [] machine.frames (machine.execute statement) := by
  cases statement with
  | classDecl name superclass methods =>
      cases superclass with
      | none => exact machine.exchanges_declareClass name none methods
      | some occurrence =>
          dsimp only [execute]
          split
          · exact machine.exchanges_declareClass name _ methods
          · exact exchanges_of_same rfl rfl rfl
          · exact exchanges_of_same rfl rfl rfl
  | function declaration => exact exchanges_of_same rfl rfl rfl
  | returnValue keyword value =>
      cases value with
      | none => exact exchanges_of_same rfl rfl rfl
      | some value => exact exchanges_of_pushed rfl rfl rfl rfl
  | varDecl name initializer =>
      cases initializer with
      | none => exact exchanges_of_same rfl rfl rfl
      | some value => exact exchanges_of_pushed rfl rfl rfl rfl
  | _ => exact exchanges_of_pushed rfl rfl rfl rfl

/-- A frame that stands for no environment and no call may be taken off. -/
theorem Exchanges.popped {machine next : Machine} {frame : Frame} {stay : List Frame}
    (h : machine.Exchanges [] stay next)
    (hhome : Frame.home machine.env [frame] = machine.env) (hcall : frame.isCall = false) :
    machine.Exchanges [frame] stay next := by
  obtain ⟨pushed, hframes, henv, hdepth, hlimit⟩ := h
  refine ⟨pushed, hframes, henv.trans hhome.symm, ?_, hlimit⟩
  rw [Frame.calls, List.countP_cons_of_neg (by simp [hcall])]
  exact hdepth

/-- A frame that does not take what it gets stays. -/
theorem exchanges_back (frame : Frame) :
    machine.Exchanges [frame] machine.frames { machine with frames := frame :: machine.frames } :=
  ⟨[frame], rfl, rfl, rfl, Nat.le_max_left _ _⟩

theorem exchanges_receive (value : Value) (frame : Frame) :
    machine.Exchanges [frame] machine.frames (machine.receive value frame) := by
  cases frame with
  | unary operator => exact (machine.exchanges_settle _).popped rfl rfl
  | binaryRight operator left => exact (machine.exchanges_settle _).popped rfl rfl
  | logical operator right =>
      refine Exchanges.popped ?_ rfl rfl
      unfold receive
      dsimp only
      split
      · exact exchanges_of_same rfl rfl rfl
      · exact exchanges_of_same rfl rfl rfl
  | assign target =>
      refine Exchanges.popped ?_ rfl rfl
      unfold receive
      dsimp only
      split
      · exact exchanges_of_same rfl rfl rfl
      · exact exchanges_of_same rfl rfl rfl
  | callee paren arguments => exact (machine.exchanges_nextArgument _ _ _ _).popped rfl rfl
  | argument paren callee done rest =>
      exact (machine.exchanges_nextArgument _ _ _ _).popped rfl rfl
  | get name =>
      refine Exchanges.popped ?_ rfl rfl
      cases value with
      | object object => exact exchanges_settle { machine with world := _ } _
      | _ => exact exchanges_of_same rfl rfl rfl
  | setObject name expression =>
      refine Exchanges.popped ?_ rfl rfl
      cases value with
      | object object => exact exchanges_of_pushed rfl rfl rfl rfl
      | _ => exact exchanges_of_same rfl rfl rfl
  | print =>
      refine Exchanges.popped ?_ rfl rfl
      unfold receive
      dsimp only
      split
      · exact exchanges_of_same rfl rfl rfl
      · exact exchanges_of_same rfl rfl rfl
  | choice thenBranch elseBranch =>
      refine Exchanges.popped ?_ rfl rfl
      unfold receive
      dsimp only
      split
      · exact exchanges_of_same rfl rfl rfl
      · cases elseBranch with
        | none => exact exchanges_of_same rfl rfl rfl
        | some elseBranch => exact exchanges_of_same rfl rfl rfl
  | loopTest condition body =>
      refine Exchanges.popped ?_ rfl rfl
      unfold receive
      dsimp only
      split
      · exact exchanges_of_pushed rfl rfl rfl rfl
      · exact exchanges_of_same rfl rfl rfl
  | binaryLeft operator right =>
      refine Exchanges.popped ?_ rfl rfl
      exact exchanges_of_pushed rfl rfl rfl rfl
  | setValue name object =>
      exact (exchanges_of_same rfl rfl rfl : machine.Exchanges [] _ _).popped rfl rfl
  | expression => exact (exchanges_of_same rfl rfl rfl : machine.Exchanges [] _ _).popped rfl rfl
  | define name => exact (exchanges_of_same rfl rfl rfl : machine.Exchanges [] _ _).popped rfl rfl
  | returning => exact (exchanges_of_same rfl rfl rfl : machine.Exchanges [] _ _).popped rfl rfl
  | _ => exact machine.exchanges_back _

/-- The end of a call, in whatever way it is left. -/
theorem exchanges_of_left {machine next : Machine} {activation : Activation}
    (h : 1 ≤ machine.depth) (hframes : next.frames = machine.frames)
    (henv : next.env = activation.caller) (hdepth : next.depth = machine.depth - 1) :
    machine.Exchanges [.activation activation] machine.frames next := by
  refine ⟨[], hframes, henv, ?_, ?_⟩
  · show next.depth + 1 = machine.depth
    omega
  · omega

theorem exchanges_leave (activation : Activation) (completion : Completion)
    (h : 1 ≤ machine.depth) :
    machine.Exchanges [.activation activation] machine.frames
      (machine.leave activation completion) := by
  unfold leave
  dsimp only
  split
  · split
    · exact exchanges_of_left h rfl rfl rfl
    · exact exchanges_of_left h rfl rfl rfl
  · split
    · exact exchanges_of_left h rfl rfl rfl
    · exact exchanges_of_left h rfl rfl rfl

theorem exchanges_finish (completion : Completion) (frame : Frame)
    (h : Frame.calls [frame] ≤ machine.depth) :
    machine.Exchanges [frame] machine.frames (machine.finish completion frame) := by
  cases frame with
  | sequence rest =>
      refine Exchanges.popped ?_ rfl rfl
      cases completion with
      | normal => exact exchanges_of_same rfl rfl rfl
      | returned value => exact exchanges_of_same rfl rfl rfl
  | loopBody condition body =>
      refine Exchanges.popped ?_ rfl rfl
      cases completion with
      | normal => exact exchanges_of_pushed rfl rfl rfl rfl
      | returned value => exact exchanges_of_same rfl rfl rfl
  | block outer => exact ⟨[], rfl, rfl, rfl, Nat.le_max_left _ _⟩
  | activation activation => exact machine.exchanges_leave activation completion h
  | _ => exact machine.exchanges_back _

theorem exchanges_unwind (frame : Frame) (h : Frame.calls [frame] ≤ machine.depth) :
    machine.Exchanges [frame] machine.frames (machine.unwind frame) := by
  cases frame with
  | block outer => exact ⟨[], rfl, rfl, rfl, Nat.le_max_left _ _⟩
  | activation activation => exact exchanges_of_left h rfl rfl rfl
  | _ => exact (exchanges_of_same rfl rfl rfl : machine.Exchanges [] _ _).popped rfl rfl

/-- Work that has not come to its end only adds to the frames. -/
theorem exchanges_step (h : machine.control.isResult = false) :
    machine.Exchanges [] machine.frames machine.step := by
  obtain ⟨control, frames, env, depth, world⟩ := machine
  cases control with
  | evaluate expression => exact exchanges_evaluate _ expression
  | execute statement => exact exchanges_execute _ statement
  | run statements =>
      cases statements with
      | nil => exact exchanges_of_same rfl rfl rfl
      | cons statement rest => exact exchanges_of_pushed rfl rfl rfl rfl
  | _ => cases h

/-- A result goes to the innermost frame. -/
theorem exchanges_step_result (h : machine.control.isResult) {frame : Frame} {stay : List Frame}
    (hframes : machine.frames = frame :: stay) (hcalls : Frame.calls [frame] ≤ machine.depth) :
    machine.Exchanges [frame] stay machine.step := by
  obtain ⟨control, frames, env, depth, world⟩ := machine
  obtain rfl : frames = frame :: stay := hframes
  cases control with
  | value value => exact exchanges_receive ⟨_, stay, env, depth, world⟩ value frame
  | completed completion =>
      exact exchanges_finish ⟨_, stay, env, depth, world⟩ completion frame hcalls
  | failed failure => exact exchanges_unwind ⟨_, stay, env, depth, world⟩ frame hcalls
  | _ => cases h

end

/-! ## Parts -/

/-- The work above some frames has come to its end, and the frames are about to get its result. -/
def Ended (machine : Machine) (base : List Frame) : Prop :=
  machine.frames = base ∧ machine.control.isResult

/-- The moments of the work above some frames, from its start up to its end. -/
inductive Works (base : List Frame) (start : Machine) : Machine → Prop
  | start : Works base start start
  | step {machine : Machine} : Works base start machine → ¬machine.Ended base →
      Works base start machine.step

/-- All moments of a run are moments of the work, if it does not come to its end before. -/
theorem Works.runFor {base : List Frame} {start : Machine} {budget : Nat}
    (h : ∀ earlier < budget, ¬(start.runFor earlier).Ended base) :
    Works base start (start.runFor budget) := by
  induction budget with
  | zero => exact .start
  | succ budget ih =>
      have hworks := ih fun earlier hearlier => h earlier (Nat.lt_succ_of_lt hearlier)
      rw [runFor_add]
      unfold Machine.runFor
      split
      · exact hworks
      · exact .step hworks (h budget (Nat.lt_succ_self budget))

/-- When the frames above `base` have been left, the environment and the depth are those given. -/
def LeadsBack (base : List Frame) (env : Env) (depth : Nat) (machine : Machine) : Prop :=
  ∃ inner, machine.frames = inner ++ base ∧ Frame.home machine.env inner = env ∧
    machine.depth = depth + Frame.calls inner

/-- Until the work has come to its end, a step leaves open where it leads back to. -/
theorem LeadsBack.step {base : List Frame} {env : Env} {depth : Nat} {machine : Machine}
    (h : machine.LeadsBack base env depth) (hended : ¬machine.Ended base) :
    machine.step.LeadsBack base env depth ∧ machine.step.depth ≤ max machine.depth callLimit := by
  obtain ⟨inner, hframes, henv, hdepth⟩ := h
  by_cases hresult : machine.control.isResult
  · cases inner with
    | nil => exact absurd ⟨hframes, hresult⟩ hended
    | cons frame inner =>
        have hcalls : Frame.calls (frame :: inner) = Frame.calls [frame] + Frame.calls inner :=
          Frame.calls_append [frame] inner
        have hframe : machine.frames = frame :: (inner ++ base) := hframes
        obtain ⟨pushed, hframes', henv', hdepth', hlimit⟩ :=
          machine.exchanges_step_result hresult hframe (by omega)
        refine ⟨⟨pushed ++ inner, ?_, ?_, ?_⟩, hlimit⟩
        · rw [hframes', List.append_assoc]
        · rw [Frame.home_append, henv', ← Frame.home_append]
          exact henv
        · rw [Frame.calls_append]
          omega
  · obtain ⟨pushed, hframes', henv', hdepth', hlimit⟩ :=
      machine.exchanges_step (Bool.eq_false_iff.2 hresult)
    refine ⟨⟨pushed ++ inner, ?_, ?_, ?_⟩, hlimit⟩
    · rw [hframes', hframes, List.append_assoc]
    · rw [Frame.home_append, henv']
      exact henv
    · rw [Frame.calls_append]
      change machine.step.depth + 0 = _ at hdepth'
      omega

theorem LeadsBack.works {base : List Frame} {env : Env} {depth : Nat} {start machine : Machine}
    (h : start.LeadsBack base env depth) (hworks : Works base start machine) :
    machine.LeadsBack base env depth := by
  induction hworks with
  | start => exact h
  | step _ hended ih => exact (ih.step hended).1

/-- What is on top of the frames is left when the work has come to its end. -/
theorem LeadsBack.ended {base : List Frame} {env : Env} {depth : Nat} {machine : Machine}
    (h : machine.LeadsBack base env depth) (hended : machine.Ended base) :
    machine.env = env ∧ machine.depth = depth := by
  obtain ⟨inner, hframes, henv, hdepth⟩ := h
  have hnil : inner = [] := by
    apply List.append_left_eq_self.1
    exact hframes.symm.trans hended.1
  subst hnil
  exact ⟨henv, hdepth⟩

/-- How the work on a part of a program begins in some state of a machine. -/
inductive Begins (machine : Machine) : Machine → Prop
  | expression (expression : Expr) : Begins machine { machine with control := .evaluate expression }
  | statement (statement : Stmt) : Begins machine { machine with control := .execute statement }
  /-- All statements of a program, or of a list inside it. -/
  | statements (statements : List Stmt) : Begins machine { machine with control := .run statements }
  /-- Statements in an environment of their own. -/
  | block (body : List Stmt) (env : Env) :
      Begins machine
        { machine with
          control := .run body
          frames := .block machine.env :: machine.frames
          env := env }
  /-- The body of a function. -/
  | call (callee : Closure) (arguments : List Value) (made : Option Instance) :
      Begins machine (machine.enter callee arguments made)

/-- A part leads back to where the work on it began. -/
theorem Begins.leadsBack {machine start : Machine} (h : machine.Begins start) :
    start.LeadsBack machine.frames machine.env machine.depth := by
  cases h with
  | expression expression => exact ⟨[], rfl, rfl, rfl⟩
  | statement statement => exact ⟨[], rfl, rfl, rfl⟩
  | statements statements => exact ⟨[], rfl, rfl, rfl⟩
  | block body env => exact ⟨[.block machine.env], rfl, rfl, rfl⟩
  | call callee arguments made =>
      exact ⟨[.activation ⟨machine.env, callee, made⟩], rfl, rfl, rfl⟩

/-! ## Runs -/

/-- A machine on which no frame waits any more stays as it is when it has a result. -/
theorem step_of_ended {machine : Machine} (h : machine.Ended []) : machine.step = machine := by
  obtain ⟨control, frames, env, depth, world⟩ := machine
  obtain ⟨rfl, hresult⟩ := h
  cases control with
  | value value => rfl
  | completed completion => rfl
  | failed failure => rfl
  | _ => cases hresult

theorem of_outcome?_ok {machine : Machine} {completion : Completion}
    (h : machine.outcome? = some (.ok completion)) :
    machine.frames = [] ∧ machine.control = .completed completion := by
  unfold outcome? at h
  split at h
  · next hframes hcontrol =>
      cases h
      exact ⟨hframes, hcontrol⟩
  · cases h
  · cases h

theorem LeadsBack.runFor {env : Env} {depth : Nat} {machine : Machine}
    (h : machine.LeadsBack [] env depth) (budget : Nat) :
    (machine.runFor budget).LeadsBack [] env depth ∧
      (machine.runFor budget).depth ≤ max machine.depth callLimit := by
  induction budget generalizing machine with
  | zero => exact ⟨h, Nat.le_max_left _ _⟩
  | succ budget ih =>
      rw [Machine.runFor]
      split
      · exact ⟨h, Nat.le_max_left _ _⟩
      · by_cases hended : machine.Ended []
        · rw [step_of_ended hended]
          exact ih h
        · obtain ⟨hback, hlimit⟩ := h.step hended
          obtain ⟨hback', hlimit'⟩ := ih hback
          exact ⟨hback', by omega⟩

/-- The call that the next step makes: its closing parenthesis, the callee and the arguments. -/
def calling? (machine : Machine) : Option (Token × Value × List Value) :=
  match machine.control, machine.frames with
  | .value callee, .callee paren [] :: _ => some (paren, callee, [])
  | .value last, .argument paren callee done [] :: _ => some (paren, callee, (last :: done).reverse)
  | _, _ => none

theorem step_of_calling? {machine : Machine} {paren : Token} {callee : Value}
    {arguments : List Value} (h : machine.calling? = some (paren, callee, arguments)) :
    ∃ frames, machine.step =
        call { machine with frames := frames } paren callee arguments := by
  obtain ⟨control, frames, env, depth, world⟩ := machine
  unfold calling? at h
  dsimp only at h
  split at h
  · cases h
    exact ⟨_, rfl⟩
  · cases h
    exact ⟨_, rfl⟩
  · cases h

/-- A call of something that can be called, with the right number of arguments, fails by itself
exactly if it would be one too many. -/
theorem call_eq_callDepth_iff (machine : Machine) (paren : Token) {callee : Value}
    {arguments : List Value} (h : callee.arity? = some arguments.length) :
    (machine.call paren callee arguments).control = .failed (.fault (paren.fault .callDepth)) ↔
      callLimit ≤ machine.depth := by
  by_cases hdepth : callLimit ≤ machine.depth
  · have hobstacle : callObstacle? callee arguments machine.depth = some .callDepth := by
      simp [callObstacle?, h, hdepth]
    unfold call
    rw [hobstacle]
    exact iff_of_true rfl hdepth
  · have hobstacle := callObstacle?_eq_none_iff.2 ⟨h, Nat.lt_of_not_le hdepth⟩
    refine iff_of_false ?_ hdepth
    unfold call
    rw [hobstacle]
    intro hfailed
    cases callee with
    | builtin native =>
        cases native with
        | clock => cases hfailed
    | function closure => cases hfailed
    | classValue ownClass =>
        dsimp only at hfailed
        cases hinitializer : ownClass.initializer? with
        | none =>
            rw [hinitializer] at hfailed
            cases hfailed
        | some method =>
            rw [hinitializer] at hfailed
            cases hfailed
    | _ => cases h

/-- The work on a part of a program, in whatever state of the machine it begins and however it ends,
ends in the environment and at the depth at which it began.  At every moment of a run that starts at
depth zero the depth is the number of calls under way, of which there are never more than the limit;
and a call that could be made otherwise fails exactly if there are that many already. -/
theorem control_restored :
    (∀ machine start finish : Machine, machine.Begins start →
      Works machine.frames start finish → finish.Ended machine.frames →
      finish.env = machine.env ∧ finish.depth = machine.depth) ∧
    (∀ (start : Machine) (budget : Nat), start.frames = [] → start.depth = 0 →
      let machine := start.runFor budget
      machine.depth = Frame.calls machine.frames ∧ machine.depth ≤ callLimit ∧
      ∀ paren callee arguments, machine.calling? = some (paren, callee, arguments) →
        callee.arity? = some arguments.length →
        (machine.step.control = .failed (.fault (paren.fault .callDepth)) ↔
          Frame.calls machine.frames = callLimit)) ∧
    RuntimeCause.callDepth.message = "Stack overflow." := by
  refine ⟨?_, ?_, rfl⟩
  · intro machine start finish hbegins hworks hended
    exact (hbegins.leadsBack.works hworks).ended hended
  · intro start budget hframes hdepth
    have hback : start.LeadsBack [] start.env 0 := ⟨[], hframes, rfl, hdepth⟩
    obtain ⟨⟨inner, hinner, -, hcalls⟩, hlimit⟩ := hback.runFor budget
    rw [List.append_nil] at hinner
    rw [Nat.zero_add, ← hinner] at hcalls
    rw [hdepth, Nat.zero_max] at hlimit
    refine ⟨hcalls, hlimit, ?_⟩
    intro paren callee arguments hcalling harity
    obtain ⟨frames, hstep⟩ := step_of_calling? hcalling
    rw [hstep, call_eq_callDepth_iff _ paren harity, ← hcalls]
    constructor
    · intro hfull
      exact Nat.le_antisymm hlimit hfull
    · intro hfull
      exact Nat.le_of_eq hfull.symm

/-- A statement that fails. -/
def failing : Stmt :=
  .expression (.unary ⟨.symbol .minus, "-", 1⟩ (.literal .nil))

/-- A machine in the body of a function, in a scope of its own. -/
def calledOnce : Machine where
  control := .completed .normal
  frames := [.activation ⟨Store.globalEnv, ⟨0, .mk (.named "f" 1) [] [], Store.globalEnv, false⟩,
    none⟩]
  env := [7, 0]
  depth := 1
  world := .initial none fun _ => 0

/-- A call without arguments. -/
def clockCall : Stmt :=
  .expression (.call (.variable ⟨0, .named "clock" 1⟩) ⟨.symbol .rightParen, ")", 1⟩ [])

/-- A block fails while a call is under way; and a run that has just started can still make a
call. -/
theorem control_restored_failing :
    let start : Machine := { calledOnce with control := .execute (.block [failing]) }
    let finish := start.runFor 9
    let first : Machine := .start calledOnce.world Store.globalEnv [clockCall]
    let caller := first.runFor 4
    let paren : Token := ⟨.symbol .rightParen, ")", 1⟩
    (calledOnce.Begins start ∧ Works calledOnce.frames start finish ∧
      finish.Ended calledOnce.frames ∧
      finish.control = .failed (.fault ⟨.operandNotNumber, 1⟩) ∧ finish.env = [7, 0] ∧
      finish.depth = 1) ∧
    (first.frames = [] ∧ first.depth = 0 ∧ caller.depth = Frame.calls caller.frames ∧
      caller.calling? = some (paren, .builtin .clock, []) ∧
      (Value.builtin .clock).arity? = some 0 ∧
      (caller.step.control = .failed (.fault (paren.fault .callDepth)) ↔
        Frame.calls caller.frames = callLimit)) := by
  intro start finish first caller paren
  have hbegins : calledOnce.Begins start := .statement _
  have hopen : ∀ budget < 9, ¬((start.runFor budget).frames.length = 1 ∧
      (start.runFor budget).control.isResult) := by decide
  have hworks : Works calledOnce.frames start finish := by
    apply Works.runFor
    intro budget hbudget hended
    exact hopen budget hbudget ⟨congrArg List.length hended.1, hended.2⟩
  have hended : finish.Ended calledOnce.frames := ⟨rfl, rfl⟩
  obtain ⟨henv, hdepth⟩ := control_restored.1 calledOnce start finish hbegins hworks hended
  obtain ⟨hcalls, -, hcalling⟩ := control_restored.2.1 first 4 rfl rfl
  exact ⟨⟨hbegins, hworks, hended, rfl, henv, hdepth⟩, rfl, rfl, hcalls, rfl, rfl,
    hcalling paren _ [] rfl rfl⟩

end Machine

end LoxLang
