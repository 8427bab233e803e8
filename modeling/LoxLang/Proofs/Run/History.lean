import LoxLang.Session

/-!
# The history of a session

A scope does not tell what it was made for.  A `Run` is a machine together with a record of that:
which programs the session has run, what each scope was made for, which statements were executed
where, and which block runs and calls are under way.  The record is written from what the machine is
about to do and has no effect on it; so the machine of a run goes through the same states as it does
alone.
-/

namespace LoxLang

/-- What a scope was made for. -/
inductive Opening where
  | globals
  /-- A run of a block that stands in some environment. -/
  | block (body : List Stmt) (outer : Env)
  | call (callee : Closure)
  /-- A function that was made of a method, and the instance to which it was bound. -/
  | bound (function : Closure) (object : Instance)
  /-- A class declaration that was executed in some environment, and the value of its superclass
  clause. -/
  | superclass (name : Token) (clause : Occurrence) (methods : List FunctionDecl) (value : Class)
      (outer : Env)

/-- Whether statements are run in the scope, up to an end that ends it too. -/
def Opening.isRun : Opening → Bool
  | block _ _ => true
  | call _ => true
  | _ => false

/-! ## The scopes that a step makes -/

namespace World

/-- The scope that is made when a property of an instance is looked up. -/
def openedByProperty (world : World) (object : Instance) (name : Token) : List Opening :=
  match world.store.field? object.identity name.lexeme with
  | some _ => []
  | none =>
      match object.ownClass.findMethod? name.lexeme with
      | some method => [.bound (world.bind method object).2 object]
      | none => []

/-- The scope that is made when a method of the superclass is looked up. -/
def openedBySuper (world : World) (env : Env) (occurrence : Occurrence) (method : Token) :
    List Opening :=
  match world.distances[occurrence.id]? with
  | none => []
  | some distance =>
      match world.store.getAt? env distance occurrence.name.lexeme,
          world.store.getAt? env (distance - 1) thisName with
      | some (.classValue superclass), some (.object object) =>
          match superclass.findMethod? method.lexeme with
          | some found => [.bound (world.bind found object).2 object]
          | none => []
      | _, _ => []

end World

namespace Machine

/-- The scopes that are made for a call whose arguments are known. -/
def openedByCall (machine : Machine) (callee : Value) (arguments : List Value) : List Opening :=
  match callObstacle? callee arguments machine.depth with
  | some _ => []
  | none =>
      match callee with
      | .function closure => [.call closure]
      | .classValue ownClass =>
          match ownClass.initializer? with
          | none => []
          | some method =>
              let made := machine.world.construct ownClass
              let closure := (made.1.bind method made.2).2
              [.bound closure made.2, .call closure]
      | _ => []

/-- The scopes that are made for a call, if no argument is left to be evaluated. -/
def openedByNext (machine : Machine) (callee : Value) (done : List Value) :
    List Expr → List Opening
  | [] => machine.openedByCall callee done.reverse
  | _ :: _ => []

/-- The scopes that are made by the step of an expression. -/
def openedByExpression (machine : Machine) : Expr → List Opening
  | .superRef occurrence method => machine.world.openedBySuper machine.env occurrence method
  | _ => []

/-- The scopes that are made by the step of a statement. -/
def openedByStatement (machine : Machine) : Stmt → List Opening
  | .block body => [.block body machine.env]
  | .classDecl name (some clause) methods =>
      match machine.world.read machine.env clause with
      | .ok (.classValue value) => [.superclass name clause methods value machine.env]
      | _ => []
  | _ => []

/-- The scopes that are made when a frame gets a value. -/
def openedByValue (machine : Machine) (value : Value) : Frame → List Opening
  | .callee _ arguments => machine.openedByNext value [] arguments
  | .argument _ callee done rest => machine.openedByNext callee (value :: done) rest
  | .get name =>
      match value with
      | .object object => machine.world.openedByProperty object name
      | _ => []
  | _ => []

/-- The scopes that the next step makes. -/
def opened (machine : Machine) : List Opening :=
  match machine.control, machine.frames with
  | .evaluate expression, _ => machine.openedByExpression expression
  | .execute statement, _ => machine.openedByStatement statement
  | .value value, frame :: _ => machine.openedByValue value frame
  | _, _ => []

/-- Whether the next step ends a block run or a call. -/
def ends (machine : Machine) : Bool :=
  match machine.control, machine.frames with
  | .completed _, .block _ :: _ => true
  | .completed _, .activation _ :: _ => true
  | .failed _, .block _ :: _ => true
  | .failed _, .activation _ :: _ => true
  | _, _ => false

end Machine

/-- The numbers of the scopes in which statements are run, among scopes that are made when there
are `size` already. -/
def Opening.runs (opened : List Opening) (size : Nat) : List ScopeId :=
  ((opened.zipIdx size).filter (·.1.isRun)).map (·.2)

/-! ## Runs -/

/-- The execution of a statement in an environment, under some block runs and calls. -/
structure Execution where
  statement : Stmt
  env : Env
  /-- The scopes of the block runs and calls, the innermost first. -/
  active : List ScopeId

/-- The programs that a session has run and the statements that it has executed, the latest first,
and what each scope was made for. -/
structure Past where
  programs : List Program
  executed : List Execution
  openings : List Opening

/-- The past of a session in which nothing has run. -/
def Past.initial : Past where
  programs := []
  executed := []
  openings := [.globals]

/-- A running program in the light of what has happened in its session. -/
structure Run where
  past : Past
  /-- The scopes of the block runs and calls that are under way, the innermost first. -/
  active : List ScopeId
  machine : Machine

namespace Run

/-- A program that is about to run. -/
def start (past : Past) (world : World) (program : Program) : Run where
  past := { past with programs := program :: past.programs }
  active := []
  machine := .start world Store.globalEnv program

/-- The statement that the next step executes. -/
def execution (run : Run) : List Execution :=
  match run.machine.control with
  | .execute statement => [⟨statement, run.machine.env, run.active⟩]
  | _ => []

/-- The past up to the statement that the next step executes. -/
def present (run : Run) : Past :=
  { run.past with executed := run.execution ++ run.past.executed }

/-- A program without faults as the first one of a session. -/
def first (capacity : Option Nat) (reading : Nat → Float) (program : Program) : Run :=
  start .initial ((World.initial capacity reading).resolved program.findings) program

/-- One step. -/
def step (run : Run) : Run where
  past := { run.present with openings := run.past.openings ++ run.machine.opened }
  active := Opening.runs run.machine.opened run.past.openings.length ++
    if run.machine.ends then run.active.tail else run.active
  machine := run.machine.step

/-- At most `budget` steps; fewer if the run ends before. -/
def runFor : (budget : Nat) → Run → Run
  | 0, run => run
  | budget + 1, run =>
      match run.machine.outcome? with
      | some _ => run
      | none => run.step.runFor budget

/-- The record has no effect on the machine. -/
theorem machine_runFor (run : Run) (budget : Nat) :
    (run.runFor budget).machine = run.machine.runFor budget := by
  induction budget generalizing run with
  | zero => rfl
  | succ budget ih =>
      cases h : run.machine.outcome? with
      | some outcome => simp [runFor, Machine.runFor, h]
      | none => simp [runFor, Machine.runFor, h, ih, step]

end Run

/-! ## Sessions -/

/-- What happens to a program before it is run, in scripts and in lines. -/
inductive Prepares : (Program → Program) → Prop
  | script : Prepares id
  | line : Prepares Program.echoing

/-- The past of a session behind a source text. -/
def Past.after (past : Past) (session : Session) (budget : Nat) (prepare : Program → Program)
    (source : String) : Past :=
  match session.compile source with
  | (_, _, none) => past
  | (compiled, _, some program) =>
      ((Run.start past compiled.world (prepare program)).runFor budget).past

/-- The sessions that there can be, with their pasts: source texts have been run as scripts or as
lines, accepted or not, faults have been forgotten, and what was written may have been taken away
or added to in between. -/
inductive Session.Reached : Session → Past → Prop
  | initial (capacity : Option Nat) (reading : Nat → Float) :
      Reached (.initial capacity reading) .initial
  | step {session next : Session} {past : Past} {budget : Nat} {prepare : Program → Program}
      {source : String} {diagnostics : List Diagnostic} :
      Reached session past → Prepares prepare →
      session.step budget prepare source = some (next, diagnostics) →
      Reached next (past.after session budget prepare source)
  | forget {session : Session} {past : Past} : Reached session past → Reached session.forget past
  | write {session : Session} {past : Past} (output : Output) : Reached session past →
      Reached { session with world := { session.world with output := output } } past

namespace Run

/-- The runs that there can be in a session, at every moment. -/
inductive Occurs : Run → Prop
  | start {session compiled : Session} {past : Past} {prepare : Program → Program}
      {source : String} {diagnostics : List Diagnostic} {program : Program} :
      session.Reached past → Prepares prepare →
      session.compile source = (compiled, diagnostics, some program) →
      Occurs (.start past compiled.world (prepare program))
  | step {run : Run} : Occurs run → Occurs run.step

/-- The later moments of a session: behind a step, or at the start of a program that is run next, in
a session that has kept the variables as they were left. -/
inductive Precedes (run : Run) : Run → Prop
  | refl : Precedes run run
  | step {later : Run} : Precedes run later → Precedes run later.step
  | start {later : Run} {session compiled : Session} {prepare : Program → Program}
      {source : String} {diagnostics : List Diagnostic} {program : Program} :
      Precedes run later → session.Reached later.past →
      session.world.store = later.machine.world.store → Prepares prepare →
      session.compile source = (compiled, diagnostics, some program) →
      Precedes run (.start later.past compiled.world (prepare program))

end Run

end LoxLang
