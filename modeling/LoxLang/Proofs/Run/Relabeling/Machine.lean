import LoxLang.Proofs.Run.Recorded
import LoxLang.Proofs.Run.Relabeling.World

/-!
# Relabelled runs

A machine with other labels takes the same steps, if what is recorded under the new numbers is what
was recorded under the old ones: labels show in faults alone.  So a program runs in the same way
under other numbers, and on other lines; and labels that stay the same in a world and in a program
stay the same in the world to which the program leads.
-/

namespace LoxLang

def Completion.relabel (r : Relabeling) : Completion → Completion
  | normal => normal
  | returned value => returned (value.relabel r)

/-- A failure on another line. -/
def Failure.mapLine (lines : Nat → Nat) : Failure → Failure
  | fault broken => fault (broken.mapLine lines)
  | outputFull => outputFull

/-- How a run with other labels ends. -/
def Relabeling.ending (r : Relabeling) : Except Failure Completion → Except Failure Completion
  | .ok completion => .ok (completion.relabel r)
  | .error failure => .error (failure.mapLine r.lines)

def Activation.relabel (r : Relabeling) (activation : Activation) : Activation where
  caller := activation.caller
  callee := activation.callee.relabel r
  made := activation.made.map (Instance.relabel r)

def Frame.relabel (r : Relabeling) : Frame → Frame
  | unary operator => unary (r.token operator)
  | binaryLeft operator right => binaryLeft (r.token operator) (right.relabel r)
  | binaryRight operator left => binaryRight (r.token operator) (left.relabel r)
  | logical operator right => logical (r.token operator) (right.relabel r)
  | assign target => assign (r.occurrence target)
  | callee paren arguments => callee (r.token paren) (Expr.relabelAll r arguments)
  | argument paren called done rest =>
      argument (r.token paren) (called.relabel r) (done.map (Value.relabel r))
        (Expr.relabelAll r rest)
  | get name => get (r.token name)
  | setObject name value => setObject (r.token name) (value.relabel r)
  | setValue name object => setValue (r.token name) (object.relabel r)
  | expression => expression
  | print => print
  | define name => define (r.token name)
  | choice thenBranch elseBranch =>
      choice (thenBranch.relabel r) (elseBranch.map (Stmt.relabel r))
  | loopTest condition body => loopTest (condition.relabel r) (body.relabel r)
  | loopBody condition body => loopBody (condition.relabel r) (body.relabel r)
  | returning => returning
  | sequence rest => sequence (Stmt.relabelAll r rest)
  | block outer => block outer
  | activation ended => activation (ended.relabel r)

def Control.relabel (r : Relabeling) : Control → Control
  | evaluate expression => evaluate (expression.relabel r)
  | execute statement => execute (statement.relabel r)
  | run statements => run (Stmt.relabelAll r statements)
  | value result => value (result.relabel r)
  | completed completion => completed (completion.relabel r)
  | failed failure => failed (failure.mapLine r.lines)

namespace Machine

/-- A machine with other labels and with other distances on record. -/
def relabel (r : Relabeling) (recorded : Distances) (machine : Machine) : Machine where
  control := machine.control.relabel r
  frames := machine.frames.map (Frame.relabel r)
  env := machine.env
  depth := machine.depth
  world := machine.world.relabel r recorded

section

variable (r : Relabeling) (recorded : Distances) (machine : Machine)

@[simp] theorem env_relabel : (machine.relabel r recorded).env = machine.env := rfl

@[simp] theorem depth_relabel : (machine.relabel r recorded).depth = machine.depth := rfl

@[simp] theorem world_relabel :
    (machine.relabel r recorded).world = machine.world.relabel r recorded := rfl

theorem settle_relabel (result : Except RuntimeFault Value) :
    (machine.relabel r recorded).settle (r.result result) =
      (machine.settle result).relabel r recorded := by
  cases result <;> rfl

/-! ## Calls -/

theorem enter_relabel (callee : Closure) (arguments : List Value) (made : Option Instance) :
    (machine.relabel r recorded).enter (callee.relabel r) (arguments.map (Value.relabel r))
        (made.map (Instance.relabel r)) =
      (machine.enter callee arguments made).relabel r recorded := by
  have hparams : (callee.relabel r).declaration.params.map Token.lexeme =
      callee.declaration.params.map Token.lexeme := by
    rw [Closure.relabel, FunctionDecl.params_relabel, List.map_map]
    rfl
  have hzip : (callee.declaration.params.map Token.lexeme).zip (arguments.map (Value.relabel r)) =
      Bindings.relabel r ((callee.declaration.params.map Token.lexeme).zip arguments) := by
    rw [List.zip_map_right]
    rfl
  have hscope (bindings : Bindings) :
      (machine.relabel r recorded).world.store.newScope (bindings.relabel r) = _ :=
    machine.world.store.newScope_relabel r bindings
  have hbody : (callee.relabel r).declaration.body = _ := callee.declaration.body_relabel r
  unfold enter
  dsimp only
  rw [hparams, hzip, Bindings.ofList_relabel, hscope, hbody]
  rfl

theorem callObstacle?_relabel (callee : Value) (arguments : List Value) (depth : Nat) :
    callObstacle? (callee.relabel r) (arguments.map (Value.relabel r)) depth =
      callObstacle? callee arguments depth := by
  rw [callObstacle?, callObstacle?, callee.arity?_relabel, List.length_map]

theorem call_relabel (paren : Token) (callee : Value) (arguments : List Value) :
    (machine.relabel r recorded).call (r.token paren) (callee.relabel r)
        (arguments.map (Value.relabel r)) =
      (machine.call paren callee arguments).relabel r recorded := by
  unfold call
  rw [depth_relabel, callObstacle?_relabel]
  cases callObstacle? callee arguments machine.depth with
  | some cause => rfl
  | none =>
      cases callee with
      | builtin native =>
          cases native with
          | clock => rfl
      | function closure => exact machine.enter_relabel r recorded closure arguments none
      | classValue ownClass =>
          have hobject : (machine.relabel r recorded).world.construct (ownClass.relabel r) = _ :=
            machine.world.construct_relabel r recorded ownClass
          simp only [Value.relabel, hobject, ownClass.initializer?_relabel]
          cases ownClass.initializer? with
          | none => rfl
          | some method =>
              let constructed := machine.world.construct ownClass
              let bound := constructed.1.bind method constructed.2
              simp only [Option.map_some, World.bind_relabel]
              exact enter_relabel r recorded { machine with world := bound.1 } bound.2 arguments
                (some constructed.2)
      | _ => rfl

theorem nextArgument_relabel (paren : Token) (callee : Value) (done : List Value)
    (rest : List Expr) :
    (machine.relabel r recorded).nextArgument (r.token paren) (callee.relabel r)
        (done.map (Value.relabel r)) (Expr.relabelAll r rest) =
      (machine.nextArgument paren callee done rest).relabel r recorded := by
  cases rest with
  | nil =>
      rw [Expr.relabelAll, nextArgument, nextArgument, ← List.map_reverse]
      exact machine.call_relabel r recorded paren callee done.reverse
  | cons argument rest => rfl

theorem declareClass_relabel (name : Token) (superclass : Option Class)
    (methods : List FunctionDecl) :
    (machine.relabel r recorded).declareClass (r.token name) (superclass.map (Class.relabel r))
        (FunctionDecl.relabelAll r methods) =
      (machine.declareClass name superclass methods).relabel r recorded := by
  let named := machine.world.define machine.env name.lexeme .nil
  let made := named.makeClass machine.env name.lexeme superclass methods
  have hnamed : (machine.world.relabel r recorded).define machine.env name.lexeme .nil =
      named.relabel r recorded :=
    machine.world.define_relabel r recorded machine.env name.lexeme .nil
  have hmade : (named.relabel r recorded).makeClass machine.env name.lexeme
      (superclass.map (Class.relabel r)) (methods.map (FunctionDecl.relabel r)) =
      (made.1.relabel r recorded, made.2.relabel r) :=
    named.makeClass_relabel r recorded machine.env name.lexeme superclass methods
  have howner : (made.1.relabel r recorded).store.owner machine.env (r.token name) =
      (made.1.store.owner machine.env name).mapError (RuntimeFault.mapLine r.lines) :=
    made.1.store.owner_relabel r machine.env name
  rw [FunctionDecl.relabelAll_eq_map]
  simp only [declareClass, env_relabel, world_relabel, Relabeling.lexeme_token]
  rw [hnamed, hmade, howner]
  cases made.1.store.owner machine.env name with
  | error fault => rfl
  | ok scope =>
      have hset := made.1.set_relabel r recorded scope name.lexeme (.classValue made.2)
      exact congrArg (Machine.mk (.completed .normal) _ _ _) hset

/-! ## Results -/

theorem leave_relabel (activation : Activation) (completion : Completion) :
    (machine.relabel r recorded).leave (activation.relabel r) (completion.relabel r) =
      (machine.leave activation completion).relabel r recorded := by
  have hbound : (machine.relabel r recorded).world.store.getAt? (activation.relabel r).callee.env 0
      thisName = _ := machine.world.store.getAt?_relabel r activation.callee.env 0 thisName
  have hname : (activation.relabel r).callee.declaration.name = _ :=
    activation.callee.declaration.name_relabel r
  unfold leave
  dsimp only
  rw [hbound, hname]
  by_cases hinitializer : activation.callee.isInitializer
  · rw [if_pos hinitializer, if_pos (show (activation.relabel r).callee.isInitializer from
      hinitializer)]
    cases machine.world.store.getAt? activation.callee.env 0 thisName with
    | none => rfl
    | some bound => cases hmade : activation.made <;> simp [Activation.relabel, hmade] <;> rfl
  · rw [if_neg hinitializer, if_neg (show ¬(activation.relabel r).callee.isInitializer from
      hinitializer)]
    cases completion <;> rfl

theorem finish_relabel (completion : Completion) (frame : Frame) :
    (machine.relabel r recorded).finish (completion.relabel r) (frame.relabel r) =
      (machine.finish completion frame).relabel r recorded := by
  cases frame with
  | activation activation => exact machine.leave_relabel r recorded activation completion
  | sequence rest => cases completion <;> rfl
  | loopBody condition body => cases completion <;> rfl
  | _ => rfl

theorem unwind_relabel (frame : Frame) :
    (machine.relabel r recorded).unwind (frame.relabel r) =
      (machine.unwind frame).relabel r recorded := by
  cases frame <;> rfl

end

/-! ## Steps -/

section

variable {r : Relabeling} {recorded : Distances} {machine : Machine}
  (h : r.Agrees machine.world.distances recorded)

include h

theorem evaluate_relabel (expression : Expr) :
    (machine.relabel r recorded).evaluate (expression.relabel r) =
      (machine.evaluate expression).relabel r recorded := by
  cases expression with
  | literal value =>
      exact congrArg (fun value => Machine.mk (.value value) _ _ _ _)
        (Value.relabel_ofLiteral r value).symm
  | «variable» occurrence =>
      have hread := World.read_relabel h machine.env occurrence
      rw [Expr.relabel, evaluate, evaluate, world_relabel, env_relabel, hread]
      exact machine.settle_relabel r recorded _
  | thisRef occurrence =>
      have hread := World.read_relabel h machine.env occurrence
      rw [Expr.relabel, evaluate, evaluate, world_relabel, env_relabel, hread]
      exact machine.settle_relabel r recorded _
  | superRef occurrence method =>
      have hmethod := World.superMethod_relabel h machine.env occurrence method
      rw [Expr.relabel, evaluate, evaluate, world_relabel, env_relabel, hmethod]
      exact settle_relabel r recorded
        { machine with world := (machine.world.superMethod machine.env occurrence method).1 }
        (machine.world.superMethod machine.env occurrence method).2
  | _ => rfl

theorem execute_relabel (statement : Stmt) :
    (machine.relabel r recorded).execute (statement.relabel r) =
      (machine.execute statement).relabel r recorded := by
  cases statement with
  | block body =>
      have hscope : (machine.relabel r recorded).world.store.newScope [] = _ :=
        machine.world.store.newScope_relabel r []
      rw [Stmt.relabel, execute, execute]
      dsimp only
      rw [hscope]
      rfl
  | classDecl name superclass methods =>
      cases superclass with
      | none => exact machine.declareClass_relabel r recorded name none methods
      | some occurrence =>
          have hread := World.read_relabel h machine.env occurrence
          unfold execute
          dsimp only [Stmt.relabel, Option.map_some]
          rw [env_relabel, world_relabel, hread]
          rcases machine.world.read machine.env occurrence with fault | value
          · rfl
          · cases value with
            | classValue superclass =>
                exact machine.declareClass_relabel r recorded name (some superclass) methods
            | _ => rfl
  | function declaration =>
      have hdefine := (machine.world.close machine.env declaration false).1.define_relabel r
        recorded machine.env declaration.name.lexeme
        (.function (machine.world.close machine.env declaration false).2)
      rw [Stmt.relabel, execute, execute]
      dsimp only
      rw [world_relabel, env_relabel, World.close_relabel, FunctionDecl.name_relabel]
      exact congrArg (Machine.mk (.completed .normal) _ _ _) hdefine
  | conditional condition thenBranch elseBranch => cases elseBranch <;> rfl
  | returnValue keyword value => cases value <;> rfl
  | varDecl name initializer =>
      cases initializer with
      | some value => rfl
      | none =>
          exact congrArg (Machine.mk (.completed .normal) _ _ _)
            (machine.world.define_relabel r recorded machine.env name.lexeme .nil)
  | _ => rfl

theorem receive_relabel (value : Value) (frame : Frame) :
    (machine.relabel r recorded).receive (value.relabel r) (frame.relabel r) =
      (machine.receive value frame).relabel r recorded := by
  cases frame with
  | unary operator =>
      have hunary := value.unary_relabel r operator
      unfold receive
      dsimp only [Frame.relabel]
      rw [hunary]
      exact machine.settle_relabel r recorded _
  | binaryRight operator left =>
      have hbinary := left.binary_relabel r operator value
      unfold receive
      dsimp only [Frame.relabel]
      rw [hbinary]
      exact machine.settle_relabel r recorded _
  | logical operator right =>
      unfold receive
      dsimp only [Frame.relabel]
      rw [Relabeling.kind_token, Value.decides_relabel]
      split <;> rfl
  | assign target =>
      have htarget := World.target_relabel h machine.env target
      unfold receive
      dsimp only [Frame.relabel]
      rw [env_relabel, world_relabel, htarget]
      cases machine.world.target machine.env target with
      | error fault => rfl
      | ok scope =>
          exact congrArg (Machine.mk (.value (value.relabel r)) _ _ _)
            (machine.world.set_relabel r recorded scope target.name.lexeme value)
  | callee paren arguments => exact machine.nextArgument_relabel r recorded paren value [] arguments
  | argument paren callee done rest =>
      exact machine.nextArgument_relabel r recorded paren callee (value :: done) rest
  | get name =>
      cases value with
      | object object =>
          have hproperty := machine.world.property_relabel r recorded object name
          unfold receive
          dsimp only [Frame.relabel, Value.relabel]
          rw [world_relabel, hproperty]
          exact settle_relabel r recorded
            { machine with world := (machine.world.property object name).1 }
            (machine.world.property object name).2
      | _ => rfl
  | setObject name expression => cases value <;> rfl
  | setValue name object =>
      have hstore := machine.world.store.setField_relabel r object.identity name.lexeme value
      exact congrArg (fun store => Machine.mk (.value (value.relabel r)) _ _ _
        ((machine.world.relabel r recorded).withStore store)) hstore
  | print =>
      have hprint := machine.world.print_relabel r recorded value
      unfold receive
      dsimp only [Frame.relabel]
      rw [world_relabel, hprint]
      rcases machine.world.print value with ⟨world, _ | _⟩
      · rfl
      · rfl
  | define name =>
      exact congrArg (Machine.mk (.completed .normal) _ _ _)
        (machine.world.define_relabel r recorded machine.env name.lexeme value)
  | choice thenBranch elseBranch =>
      unfold receive
      dsimp only [Frame.relabel]
      rw [Value.isTruthy_relabel]
      split
      · rfl
      · cases elseBranch <;> rfl
  | loopTest condition body =>
      unfold receive
      dsimp only [Frame.relabel]
      rw [Value.isTruthy_relabel]
      split <;> rfl
  | _ => rfl

/-- A machine with other labels takes the same step. -/
theorem step_relabel : (machine.relabel r recorded).step = machine.step.relabel r recorded := by
  obtain ⟨control, frames, env, depth, world⟩ := machine
  cases control with
  | evaluate expression => exact evaluate_relabel h expression
  | execute statement => exact execute_relabel h statement
  | run statements => cases statements <;> rfl
  | value value =>
      cases frames with
      | nil => rfl
      | cons frame frames =>
          let machine : Machine := ⟨.value value, frames, env, depth, world⟩
          exact @receive_relabel r recorded machine h value frame
  | completed completion =>
      cases frames with
      | nil => rfl
      | cons frame frames =>
          exact finish_relabel r recorded ⟨.completed completion, frames, env, depth, world⟩
            completion frame
  | failed failure =>
      cases frames with
      | nil => rfl
      | cons frame frames =>
          exact unwind_relabel r recorded ⟨.failed failure, frames, env, depth, world⟩ frame

end

theorem outcome?_relabel (r : Relabeling) (recorded : Distances) (machine : Machine) :
    (machine.relabel r recorded).outcome? = machine.outcome?.map r.ending := by
  obtain ⟨control, frames, env, depth, world⟩ := machine
  cases frames <;> cases control <;> rfl

theorem outcome?_relabel_eq_normal {r : Relabeling} {recorded : Distances} {machine : Machine} :
    (machine.relabel r recorded).outcome? = some (.ok .normal) ↔
      machine.outcome? = some (.ok .normal) := by
  rw [outcome?_relabel]
  rcases machine.outcome? with _ | failure | _ | value <;>
    simp [Relabeling.ending, Completion.relabel]

/-- A program runs in the same way with other labels. -/
theorem runFor_relabel {r : Relabeling} {recorded : Distances} {machine : Machine}
    (h : r.Agrees machine.world.distances recorded) (budget : Nat) :
    (machine.relabel r recorded).runFor budget = (machine.runFor budget).relabel r recorded := by
  induction budget generalizing machine with
  | zero => rfl
  | succ budget ih =>
      rw [runFor, runFor, outcome?_relabel]
      cases machine.outcome? with
      | some outcome => rfl
      | none =>
          have hstep : r.Agrees machine.step.world.distances recorded := by
            rw [machine.distances_step]
            exact h
          rw [Option.map_none, step_relabel h]
          exact ih hstep

/-- Labels that stay the same in a machine stay the same in all that comes of it. -/
theorem runFor_relabel_eq_self {r : Relabeling} {machine : Machine}
    (hagrees : r.Agrees machine.world.distances machine.world.distances)
    (h : machine.relabel r machine.world.distances = machine) (budget : Nat) :
    (machine.runFor budget).relabel r machine.world.distances = machine.runFor budget := by
  rw [← runFor_relabel hagrees, h]

end Machine

end LoxLang
