import LoxLang.Machine.Basic

/-!
# Steps of the machine

`Machine.step` does the smallest piece of work there is.  A step looks at the control; a result is
handed to the innermost frame.  A machine whose run has ended stays as it is.
-/

namespace LoxLang

namespace World

/-- Stores a new state of the variables and fields. -/
@[inline]
def withStore (world : World) (store : Store) : World :=
  { world with store := store }

/-- The value that an occurrence reads: the binding at its recorded distance, or a global. -/
def read (world : World) (env : Env) (occurrence : Occurrence) : Except RuntimeFault Value :=
  match world.distances[occurrence.id]? with
  | some distance => world.store.readAt env distance occurrence.name
  | none => world.store.read Store.globalEnv occurrence.name

/-- A value that is read is that of a variable. -/
theorem exists_binding?_of_read {world : World} {env : Env} {occurrence : Occurrence}
    {value : Value} (h : world.read env occurrence = .ok value) :
    ∃ scope, world.store.binding? scope occurrence.name.lexeme = some value := by
  rw [read] at h
  split at h
  · rw [Store.readAt] at h
    split at h
    · next hvalue =>
        cases h
        exact Store.exists_binding?_of_getAt? hvalue
    · cases h
  · rw [Store.read] at h
    split at h
    · next hvalue =>
        cases h
        obtain ⟨scope, -, hbinding⟩ := List.exists_of_findSome?_eq_some hvalue
        exact ⟨scope, hbinding⟩
    · cases h

/-- The scope in which an assignment to an occurrence sets a variable: the one at its recorded
distance, or the global one if that has the name. -/
def target (world : World) (env : Env) (occurrence : Occurrence) :
    Except RuntimeFault ScopeId :=
  match world.distances[occurrence.id]? with
  | some distance => Store.ownerAt env distance occurrence.name
  | none => world.store.owner Store.globalEnv occurrence.name

/-- Gives a variable of some scope a value. -/
def set (world : World) (scope : ScopeId) (name : String) (value : Value) : World :=
  world.withStore (world.store.define scope name value)

/-- Gives a variable of the innermost scope a value. -/
def define (world : World) (env : Env) (name : String) (value : Value) : World :=
  world.withStore (world.store.defineIn env name value)

/-- Makes a function of a declaration that stands in an environment. -/
def close (world : World) (env : Env) (declaration : FunctionDecl) (isInitializer : Bool) :
    World × Closure :=
  let (store, identity) := world.store.newIdentity
  (world.withStore store, ⟨identity, declaration, env, isInitializer⟩)

/-- Makes a method into a function of an instance, in whose environment `this` is the instance. -/
def bind (world : World) (method : Closure) (object : Instance) : World × Closure :=
  let (store, scope) := world.store.newScope [(thisName, .object object)]
  let (store, identity) := store.newIdentity
  (world.withStore store, { method with identity := identity, env := scope :: method.env })

/-- Makes an instance of a class. -/
def construct (world : World) (ownClass : Class) : World × Instance :=
  let (store, identity) := world.store.newObject
  (world.withStore store, ⟨identity, ownClass⟩)

/-- Makes functions of the methods of a class. -/
def closeAll (world : World) (env : Env) : List FunctionDecl → World × List (String × Closure)
  | [] => (world, [])
  | method :: rest =>
      let (world, closure) := world.close env method method.isInitializer
      let (world, closures) := world.closeAll env rest
      (world, (method.name.lexeme, closure) :: closures)

theorem env_of_mem_closeAll {world : World} {env : Env} {methods : List FunctionDecl}
    {entry : String × Closure} (h : entry ∈ (world.closeAll env methods).2) :
    entry.2.env = env := by
  induction methods generalizing world with
  | nil => cases h
  | cons method rest ih =>
      rcases List.mem_cons.1 h with rfl | hmem
      · rfl
      · exact ih hmem

/-- Makes a class.  Its methods find the superclass in a scope around them, if there is one; of
methods with the same name the last one counts. -/
def makeClass (world : World) (env : Env) (name : String) (superclass : Option Class)
    (methods : List FunctionDecl) : World × Class :=
  let (world, methodEnv) :=
    match superclass with
    | none => (world, env)
    | some superclass =>
        let (store, scope) := world.store.newScope [(superName, .classValue superclass)]
        (world.withStore store, scope :: env)
  let (world, closures) := world.closeAll methodEnv methods
  let (store, identity) := world.store.newIdentity
  (world.withStore store, ⟨identity, name, superclass, closures.reverse⟩)

/-- The property of an instance: a field, or else a method of its class. -/
def property (world : World) (object : Instance) (name : Token) :
    World × Except RuntimeFault Value :=
  match world.store.field? object.identity name.lexeme with
  | some value => (world, .ok value)
  | none =>
      match object.ownClass.findMethod? name.lexeme with
      | some method =>
          let (world, closure) := world.bind method object
          (world, .ok (.function closure))
      | none => (world, .error (name.fault (.undefinedProperty name.lexeme)))

/-- The method of the superclass that an occurrence of `super` names, as a function of the instance
that the code around it belongs to.  The instance is bound one scope inside the superclass. -/
def superMethod (world : World) (env : Env) (occurrence : Occurrence) (method : Token) :
    World × Except RuntimeFault Value :=
  match world.distances[occurrence.id]? with
  | none => (world, .error (occurrence.name.fault .superUnresolved))
  | some distance =>
      match world.store.getAt? env distance occurrence.name.lexeme,
          world.store.getAt? env (distance - 1) thisName with
      | none, _ => (world, .error occurrence.name.undefined)
      | some _, none => (world, .error (occurrence.name.fault (.undefinedVariable thisName)))
      | some (.classValue superclass), some (.object object) =>
          match superclass.findMethod? method.lexeme with
          | some found =>
              let (world, closure) := world.bind found object
              (world, .ok (.function closure))
          | none => (world, .error (method.fault (.undefinedProperty method.lexeme)))
      | some _, some _ => (world, .error (occurrence.name.fault .superMisbound))

/-- Takes a reading of the clock. -/
def tick (world : World) : World × Float :=
  let clock := world.clock
  ({ world with clock := { clock with taken := clock.taken + 1 } }, clock.reading clock.taken)

/-- Prints a value on a line of its own, and says whether there was room for it. -/
def print (world : World) (value : Value) : World × Bool :=
  let ⟨store, distances, output, clock⟩ := world
  let (output, fits) := output.write (value.text ++ "\n")
  (⟨store, distances, output, clock⟩, fits)

end World

/-- How many arguments a value needs when it is called; none if it cannot be called. -/
def Value.arity? : Value → Option Nat
  | .builtin native => some native.arity
  | .function closure => some closure.arity
  | .classValue value => some value.arity
  | _ => none

theorem Value.arity?_of_initializer? {ownClass : Class} {method : Closure}
    (h : ownClass.initializer? = some method) :
    (Value.classValue ownClass).arity? = some method.arity := by
  rw [arity?, Class.arity, h]
  rfl

/-- Why a call cannot be made, if it cannot: the callee is tested first, then the number of
arguments, then the number of active calls. -/
def callObstacle? (callee : Value) (arguments : List Value) (depth : Nat) : Option RuntimeCause :=
  match callee.arity? with
  | none => some .notCallable
  | some expected =>
      if arguments.length ≠ expected then
        some (.argumentCount expected arguments.length)
      else if callLimit ≤ depth then
        some .callDepth
      else
        none

/-- A call can be made of what takes as many arguments as there are, below the limit. -/
theorem callObstacle?_eq_none_iff {callee : Value} {arguments : List Value} {depth : Nat} :
    callObstacle? callee arguments depth = none ↔
      callee.arity? = some arguments.length ∧ depth < callLimit := by
  rw [callObstacle?]
  cases callee.arity? with
  | none => simp
  | some expected =>
      by_cases hcount : arguments.length = expected
      · simp [hcount]
      · simp [hcount, Ne.symm hcount]

namespace Machine

/-- The machine with a value as the result of its control. -/
def yield (machine : Machine) (value : Value) : Machine :=
  { machine with control := .value value }

/-- The machine with a statement at its end. -/
def complete (machine : Machine) (completion : Completion) : Machine :=
  { machine with control := .completed completion }

/-- The machine with a failure. -/
def fail (machine : Machine) (fault : RuntimeFault) : Machine :=
  { machine with control := .failed (.fault fault) }

/-- The machine with the value or fault of a part that needs no steps. -/
def settle (machine : Machine) (result : Except RuntimeFault Value) : Machine :=
  match result with
  | .ok value => machine.yield value
  | .error fault => machine.fail fault

theorem world_settle (machine : Machine) (result : Except RuntimeFault Value) :
    (machine.settle result).world = machine.world := by
  cases result <;> rfl

/-- The machine with an expression to evaluate and a frame for its value. -/
def evaluating (machine : Machine) (expression : Expr) (frame : Frame) : Machine :=
  { machine with control := .evaluate expression, frames := frame :: machine.frames }

/-- The machine with a statement to execute and a frame for its end. -/
def executing (machine : Machine) (statement : Stmt) (frame : Frame) : Machine :=
  { machine with control := .execute statement, frames := frame :: machine.frames }

/-- Starts on the body of a function whose arguments are known. -/
def enter (machine : Machine) (callee : Closure) (arguments : List Value)
    (made : Option Instance) : Machine :=
  let ⟨_, frames, env, depth, world⟩ := machine
  let params := callee.declaration.params.map Token.lexeme
  let (store, scope) := world.store.newScope (Bindings.ofList (params.zip arguments))
  { control := .run callee.declaration.body
    frames := .activation ⟨env, callee, made⟩ :: frames
    env := scope :: callee.env
    depth := depth + 1
    world := world.withStore store }

/-- Makes a call whose arguments are known.  The call of a class makes an instance and runs its
initializer, if it has one. -/
def call (machine : Machine) (paren : Token) (callee : Value) (arguments : List Value) : Machine :=
  match callObstacle? callee arguments machine.depth with
  | some cause => machine.fail (paren.fault cause)
  | none =>
      match callee with
      | .builtin .clock =>
          let (world, seconds) := machine.world.tick
          { machine with control := .value (.number seconds), world := world }
      | .function closure => machine.enter closure arguments none
      | .classValue ownClass =>
          let (world, object) := machine.world.construct ownClass
          match ownClass.initializer? with
          | none => { machine with control := .value (.object object), world := world }
          | some method =>
              let (world, closure) := world.bind method object
              enter { machine with world := world } closure arguments (some object)
      | _ => machine.fail (paren.fault .notCallable)

section

variable {machine : Machine} {paren : Token} {arguments : List Value}

theorem call_of_obstacle {callee : Value} {cause : RuntimeCause}
    (h : callObstacle? callee arguments machine.depth = some cause) :
    machine.call paren callee arguments = machine.fail (paren.fault cause) := by
  unfold call
  rw [h]

theorem call_function {closure : Closure}
    (h : callObstacle? (.function closure) arguments machine.depth = none) :
    machine.call paren (.function closure) arguments = machine.enter closure arguments none := by
  unfold call
  rw [h]

theorem call_class {ownClass : Class}
    (h : callObstacle? (.classValue ownClass) arguments machine.depth = none)
    (hinitializer : ownClass.initializer? = none) :
    machine.call paren (.classValue ownClass) arguments =
      let (world, object) := machine.world.construct ownClass
      { machine with control := .value (.object object), world := world } := by
  unfold call
  rw [h]
  dsimp only
  rw [hinitializer]

theorem call_class_of_initializer? {ownClass : Class} {method : Closure}
    (h : callObstacle? (.classValue ownClass) arguments machine.depth = none)
    (hinitializer : ownClass.initializer? = some method) :
    machine.call paren (.classValue ownClass) arguments =
      let (world, object) := machine.world.construct ownClass
      let (world, closure) := world.bind method object
      enter { machine with world := world } closure arguments (some object) := by
  unfold call
  rw [h]
  dsimp only
  rw [hinitializer]

end

/-- Evaluates the next argument of a call, or makes the call if there is none. -/
def nextArgument (machine : Machine) (paren : Token) (callee : Value) (done : List Value)
    (rest : List Expr) : Machine :=
  match rest with
  | [] => machine.call paren callee done.reverse
  | argument :: rest => machine.evaluating argument (.argument paren callee done rest)

/-- Executes a class declaration.  The name is bound before the methods are made, so that they find
it, and gets its class afterwards. -/
def declareClass (machine : Machine) (name : Token) (superclass : Option Class)
    (methods : List FunctionDecl) : Machine :=
  let world := machine.world.define machine.env name.lexeme .nil
  let (world, made) := world.makeClass machine.env name.lexeme superclass methods
  match world.store.owner machine.env name with
  | .ok scope =>
      { machine with
        control := .completed .normal
        world := world.set scope name.lexeme (.classValue made) }
  | .error fault =>
      { machine with control := .failed (.fault fault), world := world }

/-- The step of an expression. -/
def evaluate (machine : Machine) : Expr → Machine
  | .literal value => machine.yield (.ofLiteral value)
  | .grouping inner => { machine with control := .evaluate inner }
  | .unary operator operand => machine.evaluating operand (.unary operator)
  | .binary operator left right => machine.evaluating left (.binaryLeft operator right)
  | .logical operator left right => machine.evaluating left (.logical operator right)
  | .variable occurrence => machine.settle (machine.world.read machine.env occurrence)
  | .assign target value => machine.evaluating value (.assign target)
  | .call callee paren arguments => machine.evaluating callee (.callee paren arguments)
  | .get object name => machine.evaluating object (.get name)
  | .set object name value => machine.evaluating object (.setObject name value)
  | .thisRef occurrence => machine.settle (machine.world.read machine.env occurrence)
  | .superRef occurrence method =>
      let (world, result) := machine.world.superMethod machine.env occurrence method
      settle { machine with world := world } result

/-- The step of a statement. -/
def execute (machine : Machine) : Stmt → Machine
  | .block body =>
      let ⟨_, frames, env, depth, world⟩ := machine
      let (store, scope) := world.store.newScope []
      { control := .run body
        frames := .block env :: frames
        env := scope :: env
        depth := depth
        world := world.withStore store }
  | .classDecl name superclass methods =>
      match superclass with
      | none => machine.declareClass name none methods
      | some occurrence =>
          match machine.world.read machine.env occurrence with
          | .ok (.classValue superclass) => machine.declareClass name (some superclass) methods
          | .ok _ => machine.fail (occurrence.name.fault .superclassNotClass)
          | .error fault => machine.fail fault
  | .expression value => machine.evaluating value .expression
  | .function declaration =>
      let (world, closure) := machine.world.close machine.env declaration false
      { machine with
        control := .completed .normal
        world := world.define machine.env declaration.name.lexeme (.function closure) }
  | .conditional condition thenBranch elseBranch =>
      machine.evaluating condition (.choice thenBranch elseBranch)
  | .print value => machine.evaluating value .print
  | .returnValue _ value =>
      match value with
      | some value => machine.evaluating value .returning
      | none => machine.complete (.returned .nil)
  | .varDecl name initializer =>
      match initializer with
      | some value => machine.evaluating value (.define name)
      | none =>
          { machine with
            control := .completed .normal
            world := machine.world.define machine.env name.lexeme .nil }
  | .whileLoop condition body => machine.evaluating condition (.loopTest condition body)

/-- Hands a value to the frame that waits for it, which has been taken off.  Frames that wait for
the end of a statement never get one. -/
def receive (machine : Machine) (value : Value) : Frame → Machine
  | .unary operator =>
      machine.settle ((value.unary operator.kind).mapError operator.fault)
  | .binaryLeft operator right => machine.evaluating right (.binaryRight operator value)
  | .binaryRight operator left =>
      machine.settle ((left.binary operator.kind value).mapError operator.fault)
  | .logical operator right =>
      if value.decides operator.kind then
        machine.yield value
      else
        { machine with control := .evaluate right }
  | .assign target =>
      let ⟨_, frames, env, depth, world⟩ := machine
      match world.target env target with
      | .ok scope =>
          ⟨.value value, frames, env, depth, world.set scope target.name.lexeme value⟩
      | .error fault => ⟨.failed (.fault fault), frames, env, depth, world⟩
  | .callee paren arguments => machine.nextArgument paren value [] arguments
  | .argument paren callee done rest => machine.nextArgument paren callee (value :: done) rest
  | .get name =>
      match value with
      | .object object =>
          let (world, result) := machine.world.property object name
          settle { machine with world := world } result
      | _ => machine.fail (name.fault .propertyOfOther)
  | .setObject name expression =>
      match value with
      | .object object => machine.evaluating expression (.setValue name object)
      | _ => machine.fail (name.fault .fieldOfOther)
  | .setValue name object =>
      let ⟨_, frames, env, depth, world⟩ := machine
      let store := world.store.setField object.identity name.lexeme value
      ⟨.value value, frames, env, depth, world.withStore store⟩
  | .expression => machine.complete .normal
  | .print =>
      let ⟨_, frames, env, depth, world⟩ := machine
      match world.print value with
      | (world, true) => ⟨.completed .normal, frames, env, depth, world⟩
      | (world, false) => ⟨.failed .outputFull, frames, env, depth, world⟩
  | .define name =>
      let ⟨_, frames, env, depth, world⟩ := machine
      ⟨.completed .normal, frames, env, depth, world.define env name.lexeme value⟩
  | .choice thenBranch elseBranch =>
      if value.isTruthy then
        { machine with control := .execute thenBranch }
      else
        match elseBranch with
        | some elseBranch => { machine with control := .execute elseBranch }
        | none => machine.complete .normal
  | .loopTest condition body =>
      if value.isTruthy then
        machine.executing body (.loopBody condition body)
      else
        machine.complete .normal
  | .returning => machine.complete (.returned value)
  | frame => { machine with frames := frame :: machine.frames }

/-- Leaves a function whose body has ended.  The result of an initializer is its instance, whatever
the body returned. -/
def leave (machine : Machine) (activation : Activation) (completion : Completion) : Machine :=
  let machine := { machine with env := activation.caller, depth := machine.depth - 1 }
  if activation.callee.isInitializer then
    match machine.world.store.getAt? activation.callee.env 0 thisName with
    | some bound =>
        machine.yield (match activation.made with
          | some object => .object object
          | none => bound)
    | none =>
        machine.fail (activation.callee.declaration.name.fault (.undefinedVariable thisName))
  else
    match completion with
    | .returned value => machine.yield value
    | .normal => machine.yield .nil

/-- Hands the end of a statement to the frame that waits for it, which has been taken off.  Frames
that wait for a value never get one.

A `return` skips the statements behind it, up to the call around it.  Outside all calls, where only
a program that has not been resolved can have one, it ends the run of the program.  An interpreter
that goes on with the next statement of such a program runs the statements behind the `return` as a
program of their own, in the world that the first run has left. -/
def finish (machine : Machine) (completion : Completion) : Frame → Machine
  | .sequence rest =>
      match completion with
      | .normal => { machine with control := .run rest }
      | .returned _ => machine
  | .block outer => { machine with env := outer }
  | .loopBody condition body =>
      match completion with
      | .normal => machine.evaluating condition (.loopTest condition body)
      | .returned _ => machine
  | .activation activation => machine.leave activation completion
  | frame => { machine with frames := frame :: machine.frames }

/-- The end of a statement changes no variables and prints nothing. -/
theorem world_finish (machine : Machine) (completion : Completion) (frame : Frame) :
    (machine.finish completion frame).world = machine.world := by
  cases frame with
  | sequence rest => cases completion <;> rfl
  | loopBody condition body => cases completion <;> rfl
  | activation activation =>
      dsimp only [finish, leave]
      split
      · split <;> rfl
      · cases completion <;> rfl
  | _ => rfl

/-- Takes a failure out of a frame, which has been taken off. -/
def unwind (machine : Machine) : Frame → Machine
  | .block outer => { machine with env := outer }
  | .activation activation =>
      { machine with env := activation.caller, depth := machine.depth - 1 }
  | _ => machine

/-- One step.  The frame that gets a result is taken off the others first. -/
def step (machine : Machine) : Machine :=
  let ⟨control, frames, env, depth, world⟩ := machine
  match control with
  | .evaluate expression => evaluate ⟨control, frames, env, depth, world⟩ expression
  | .execute statement => execute ⟨control, frames, env, depth, world⟩ statement
  | .run [] => ⟨.completed .normal, frames, env, depth, world⟩
  | .run (statement :: rest) =>
      ⟨.execute statement, .sequence rest :: frames, env, depth, world⟩
  | .value value =>
      match frames with
      | [] => ⟨control, frames, env, depth, world⟩
      | frame :: frames => receive ⟨control, frames, env, depth, world⟩ value frame
  | .completed completion =>
      match frames with
      | [] => ⟨control, frames, env, depth, world⟩
      | frame :: frames => finish ⟨control, frames, env, depth, world⟩ completion frame
  | .failed _ =>
      match frames with
      | [] => ⟨control, frames, env, depth, world⟩
      | frame :: frames => unwind ⟨control, frames, env, depth, world⟩ frame

/-- At most `budget` steps; fewer if the run ends before. -/
def runFor : (budget : Nat) → Machine → Machine
  | 0, machine => machine
  | budget + 1, machine =>
      match machine.outcome? with
      | some _ => machine
      | none => machine.step.runFor budget

/-- A machine whose run has ended stays as it is. -/
theorem runFor_of_outcome?_isSome (machine : Machine) (budget : Nat)
    (h : machine.outcome?.isSome) : machine.runFor budget = machine := by
  obtain ⟨outcome, houtcome⟩ := Option.isSome_iff_exists.1 h
  cases budget <;> simp [runFor, houtcome]

/-- Running on is running longer. -/
theorem runFor_add (machine : Machine) (first second : Nat) :
    machine.runFor (first + second) = (machine.runFor first).runFor second := by
  induction first generalizing machine with
  | zero => simp [runFor]
  | succ first ih =>
      cases h : machine.outcome? with
      | none => simp [Nat.succ_add, runFor, h, ih]
      | some outcome =>
          have hdone : machine.outcome?.isSome := by simp [h]
          simp [runFor_of_outcome?_isSome machine _ hdone]

end Machine

end LoxLang
