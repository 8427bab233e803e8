import LoxLang.Output
import LoxLang.Resolution
import LoxLang.Store
import LoxLang.Value.Operation

/-!
# The machine

A running program is a machine state: what is to be done next (`Control`), what is to be done with
its result (`Frame`s, the innermost first), the environment, how many calls are active, and the
`World`, which is all that outlives the run.
-/

namespace LoxLang

/-- The readings of a clock, in seconds, and how many of them have been taken. -/
structure Clock where
  reading : Nat → Float
  taken : Nat

/-- What a program can change for good, and what has been found out about its names. -/
structure World where
  store : Store
  distances : Distances
  output : Output
  clock : Clock

namespace World

/-- A world in which nothing has run. -/
def initial (capacity : Option Nat) (reading : Nat → Float) : World where
  store := .initial
  distances := {}
  output := .empty capacity
  clock := ⟨reading, 0⟩

end World

/-- How a statement ends. -/
inductive Completion where
  | normal
  /-- A `return` is on its way to the call around it. -/
  | returned (value : Value)

/-- Why a run stops early. -/
inductive Failure where
  | fault (fault : RuntimeFault)
  | outputFull
deriving DecidableEq

/-- A call whose body is running. -/
structure Activation where
  /-- The environment of the call. -/
  caller : Env
  callee : Closure
  /-- The instance that the call makes, if it is the call of a class. -/
  made : Option Instance

/-- What is to be done with the result of a part. -/
inductive Frame where
  | unary (operator : Token)
  | binaryLeft (operator : Token) (right : Expr)
  | binaryRight (operator : Token) (left : Value)
  | logical (operator : Token) (right : Expr)
  | assign (target : Occurrence)
  | callee (paren : Token) (arguments : List Expr)
  /-- An argument; `done` holds the values of those before it, the latest first. -/
  | argument (paren : Token) (callee : Value) (done : List Value) (rest : List Expr)
  | get (name : Token)
  | setObject (name : Token) (value : Expr)
  | setValue (name : Token) (object : Instance)
  | expression
  | print
  | define (name : Token)
  | choice (thenBranch : Stmt) (elseBranch : Option Stmt)
  | loopTest (condition : Expr) (body : Stmt)
  | loopBody (condition : Expr) (body : Stmt)
  | returning
  | sequence (rest : List Stmt)
  /-- A block, with the environment around it. -/
  | block (outer : Env)
  | activation (activation : Activation)

/-- What is to be done next. -/
inductive Control where
  | evaluate (expression : Expr)
  | execute (statement : Stmt)
  | run (statements : List Stmt)
  /-- An expression has a value. -/
  | value (value : Value)
  /-- A statement has ended. -/
  | completed (completion : Completion)
  /-- A failure is on its way out of everything. -/
  | failed (failure : Failure)

/-- A state of a running program. -/
structure Machine where
  control : Control
  frames : List Frame
  env : Env
  /-- How many calls are active. -/
  depth : Nat
  world : World

/-- How many calls may be active. -/
def callLimit : Nat := 2048

namespace Machine

/-- A machine that is about to run statements in an environment. -/
def start (world : World) (env : Env) (statements : List Stmt) : Machine where
  control := .run statements
  frames := []
  env := env
  depth := 0
  world := world

/-- How a run ended, if it has. -/
def outcome? (machine : Machine) : Option (Except Failure Completion) :=
  match machine.frames, machine.control with
  | [], .completed completion => some (.ok completion)
  | [], .failed failure => some (.error failure)
  | _, _ => none

end Machine

end LoxLang
