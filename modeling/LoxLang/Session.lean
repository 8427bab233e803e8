import LoxLang.Diagnostic
import LoxLang.Grammar.Program
import LoxLang.Machine.Step

/-!
# Sessions

A session runs source texts one after the other in one world.  A text with a fault in it never runs;
the session remembers that there was one until it is told to forget it, and runs nothing before
that.  Every entry point takes a budget of machine steps and yields nothing if it is used up.
-/

namespace LoxLang

/-- A world in which texts are run one after the other, and what is remembered of their faults. -/
structure Session where
  world : World
  /-- The number of the next occurrence. -/
  nextId : NodeId
  /-- Whether a fault has been reported that does not come from running a program. -/
  hadError : Bool
  /-- Whether a fault of a running program has been reported. -/
  hadRuntimeError : Bool

namespace World

/-- Runs statements in an environment. -/
def run (world : World) (budget : Nat) (env : Env) (statements : List Stmt) :
    Option (World × Except Failure Completion) :=
  let machine := (Machine.start world env statements).runFor budget
  machine.outcome?.map fun outcome => (machine.world, outcome)

/-- Runs a program. -/
def runProgram (world : World) (budget : Nat) (program : Program) :
    Option (World × Except Failure Completion) :=
  world.run budget Store.globalEnv program

/-- Records what resolution has found. -/
def resolved (world : World) (findings : List Finding) : World :=
  { world with distances := world.distances.recordAll findings }

end World

/-- A line that consists of one expression prints its value. -/
def Program.echoing : Program → Program
  | [.expression value] => [.print value]
  | program => program

namespace Session

/-- A session in which nothing has run. -/
def initial (capacity : Option Nat) (reading : Nat → Float) : Session where
  world := .initial capacity reading
  nextId := 0
  hadError := false
  hadRuntimeError := false

/-- Forgets all faults. -/
def forget (session : Session) : Session :=
  { session with hadError := false, hadRuntimeError := false }

/-- Notes that diagnostics have been reported. -/
def noting (session : Session) (diagnostics : List Diagnostic) : Session :=
  { session with
    hadError := session.hadError || diagnostics.any (!·.isRuntime)
    hadRuntimeError := session.hadRuntimeError || diagnostics.any Diagnostic.isRuntime }

/-- Reads and resolves a source text: the diagnostics, and the program if it may run.  Lexical
faults do not keep the text from being read, but nothing is resolved after a fault. -/
def compile (session : Session) (source : String) :
    Session × List Diagnostic × Option Program :=
  let stream := TokenStream.ofSource source
  let lexical := stream.faults.map Diagnostic.lexical
  let parsed := Program.parse stream.tokens stream.endLine session.nextId
  let session := { session with nextId := parsed.nextId }
  match parsed.result with
  | .error faults => (session, lexical ++ faults.map .syntactic, none)
  | .ok program =>
      if session.hadError || !lexical.isEmpty then
        (session, lexical, none)
      else
        let findings := program.findings
        let session := { session with world := session.world.resolved findings }
        match findings.filterMap Finding.fault? with
        | [] => (session, [], some program)
        | faults => (session, faults.map .static, none)

/-- Runs a program that has no faults. -/
def runProgram (session : Session) (budget : Nat) (program : Program) :
    Option (Session × List Diagnostic) :=
  let ⟨world, nextId, hadError, hadRuntimeError⟩ := session
  match world.runProgram budget program with
  | none => none
  | some (world, outcome) =>
      let session := ⟨world, nextId, hadError, hadRuntimeError⟩
      match outcome with
      | .ok _ => some (session, [])
      | .error failure => some (session, [.ofFailure failure])

/-- Reads a source text and runs what `prepare` makes of it: the diagnostics in the order in which
they are reported. -/
def step (session : Session) (budget : Nat) (prepare : Program → Program) (source : String) :
    Option (Session × List Diagnostic) :=
  let (session, diagnostics, program?) := session.compile source
  match program? with
  | none => some (session.noting diagnostics, diagnostics)
  | some program =>
      (session.runProgram budget (prepare program)).map fun (session, failures) =>
        (session.noting (diagnostics ++ failures), diagnostics ++ failures)

/-- Runs a script. -/
def runScript (session : Session) (budget : Nat) (source : String) :
    Option (Session × List Diagnostic) :=
  session.step budget id source

/-- Runs a line of a dialogue. -/
def runLine (session : Session) (budget : Nat) (source : String) :
    Option (Session × List Diagnostic) :=
  session.step budget Program.echoing source

end Session

end LoxLang
