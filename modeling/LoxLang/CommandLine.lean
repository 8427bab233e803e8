import LoxLang.Dialogue
import LoxLang.Token.Listing
import LoxLang.Tree.Outline

/-!
# The command line

What each command answers: the texts on its two outputs and its exit status.  A command reads at
most one file, whose bytes are handed in.
-/

namespace LoxLang

/-- What a command answers. -/
structure Response where
  stdout : String
  stderr : String
  status : Nat
deriving DecidableEq, Repr

namespace Response

/-- The status of a command that reported a fault in a program. -/
def faulty : Nat := 65

/-- The status of a command that could not read its input. -/
def unreadable : Nat := 1

/-- The answer of a command that has read its input; the status tells whether it found a fault. -/
def reporting (stdout : String) (diagnostics : List Diagnostic) (failed : Bool) : Response where
  stdout := stdout
  stderr := Diagnostic.report diagnostics
  status := if failed then faulty else 0

/-- Adds a line of a token listing to an answer.  A fault is reported, and remembered in the
status. -/
def addLine (json : Bool) : Response → Except LexicalFault Entry → Response
  | ⟨stdout, stderr, status⟩, .ok entry =>
      ⟨stdout ++ ((if json then entry.json else entry.text) ++ "\n"), stderr, status⟩
  | ⟨stdout, stderr, _⟩, .error fault =>
      ⟨stdout, stderr ++ (Diagnostic.lexical fault).text ++ "\n", faulty⟩

/-- The report of a command that could not read its input: what it tried, and why that failed. -/
def failure (stdout stderr attempt reason : String) : Response where
  stdout := stdout
  stderr := stderr ++ "Error: " ++ attempt ++ "\n\nCaused by:\n    " ++ reason ++ "\n"
  status := unreadable

/-- The answer to a dialogue that came to a line that is not UTF-8. -/
def unreadableInput (stdout stderr : String) : Response :=
  failure stdout stderr "Failed to read from stdin" "stream did not contain valid UTF-8"

/-- The answer to a command that lacks its file. -/
def noFile : Response :=
  ⟨"No input filepath was provided. Exiting...\n", "", 0⟩

end Response

/-- What is done with a source text. -/
inductive Task where
  /-- Lists the tokens, as JSON if asked for. -/
  | tokenize (json : Bool)
  /-- Shows the outline of an expression. -/
  | parse
  /-- Prints the value of an expression. -/
  | evaluate
  /-- Runs a script, or starts a dialogue. -/
  | run
deriving DecidableEq, Repr

/-- A command: a task, and the name of the file with the source text. -/
structure Command where
  task : Task
  file : Option String
deriving DecidableEq, Repr

namespace Command

/-- The option that asks for JSON. -/
def jsonOption : String := "--json"

/-- The option that asks for a log, which changes no answer. -/
def logOption : String := "--log"

/-- Reads the arguments of a command.  The options may stand anywhere after it. -/
def ofArguments? (arguments : List String) : Option Command :=
  match arguments.filter (· != logOption) with
  | [] => none
  | name :: operands =>
      let json := operands.contains jsonOption
      let files := operands.filter (· != jsonOption)
      let task? : Option Task :=
        match name, json with
        | "tokenize", json => some (.tokenize json)
        | "parse", false => some .parse
        | "evaluate", false => some .evaluate
        | "run", false => some .run
        | _, _ => none
      match task?, files with
      | some task, [] => some ⟨task, none⟩
      | some task, [file] => some ⟨task, some file⟩
      | _, _ => none

end Command

namespace Task

/-- Lists the tokens of a source text. -/
def listTokens (json : Bool) (source : String) : Response :=
  (TokenStream.ofSource source).listing.foldl (Response.addLine json) ⟨"", "", 0⟩

/-- Reads a source text as one expression: what is reported, and the expression if it may be used.
Lexical faults do not keep the text from being read. -/
def readExpression (source : String) : List Diagnostic × Option Expr :=
  let stream := TokenStream.ofSource source
  let lexical := stream.faults.map Diagnostic.lexical
  match (Expr.parse stream.tokens stream.endLine 0).result with
  | .error faults => (lexical ++ faults.map .syntactic, none)
  | .ok expression => (lexical, if lexical.isEmpty then some expression else none)

/-- Shows the outline of an expression. -/
def showOutline (source : String) : Response :=
  match readExpression source with
  | (diagnostics, none) => .reporting "" diagnostics true
  | (diagnostics, some expression) => .reporting (expression.outline ++ "\n") diagnostics false

/-- Prints the value of an expression.  Its names are not resolved, so they name globals. -/
def printValue (budget : Nat) (reading : Nat → Float) (source : String) : Option Response :=
  match readExpression source with
  | (diagnostics, none) => some (.reporting "" diagnostics true)
  | (diagnostics, some expression) =>
      ((World.initial none reading).runProgram budget [.print expression]).map
        fun (world, outcome) =>
          let printed := Utf8.decodeCut world.output.written
          match outcome with
          | .ok _ => .reporting printed diagnostics false
          | .error failure => .reporting printed (diagnostics ++ [.ofFailure failure]) true

/-- Runs a script. -/
def runScript (budget : Nat) (reading : Nat → Float) (source : String) : Option Response :=
  ((Session.initial none reading).runScript budget source).map fun (session, diagnostics) =>
    .reporting (Utf8.decodeCut session.world.output.written) diagnostics
      (session.hadError || session.hadRuntimeError)

/-- Does a task on a source text. -/
def perform (budget : Nat) (reading : Nat → Float) (source : String) : Task → Option Response
  | tokenize json => some (listTokens json source)
  | parse => some (showOutline source)
  | evaluate => printValue budget reading source
  | run => runScript budget reading source

end Task

namespace Command

/-- Runs the lines of a dialogue, which is over at the first line that is not UTF-8. -/
def converse (budget : Nat) (reading : Nat → Float) (input : ByteArray) : Option Response :=
  ((Dialogue.initial reading).feedAll budget (Dialogue.lines input.data.toList)).map
    fun (dialogue, finished) =>
      if finished then
        ⟨dialogue.written, dialogue.reports, 0⟩
      else
        .unreadableInput dialogue.written dialogue.reports

/-- What a command answers, given the bytes of a file by its name, and the input; nothing if the
budget of machine steps is used up. -/
def respond (budget : Nat) (reading : Nat → Float) (files : String → Option ByteArray)
    (input : ByteArray) (command : Command) : Option Response :=
  match command.file with
  | none => if command.task = .run then converse budget reading input else some .noFile
  | some file =>
      let quoted := Quotation.fileName.quote file
      match files file with
      | none =>
          some (.failure "" "" ("Failed to open file " ++ quoted)
            "No such file or directory (os error 2)")
      | some bytes =>
          match Utf8.decode bytes with
          | .error fault =>
              some (.failure "" "" ("File " ++ quoted ++ " is not valid UTF-8") fault.message)
          | .ok source => command.task.perform budget reading source

end Command

end LoxLang
