import Std.Time
import LoxLang.CommandLine

/-!
# The program

Reads the arguments, files and lines that the command line asks for, and writes what it answers.
-/

namespace LoxLang.Console

/-- More steps than any run takes. -/
def stepBudget : Nat := Nat.pow 2 62

/-- The bytes of a file, if it can be read. -/
def readFile? (name : String) : IO (Option ByteArray) :=
  try
    return some (← IO.FS.readBinFile name)
  catch _ =>
    return none

/-- Readings of a clock that starts now and counts a microsecond for each reading. -/
def clockFromNow : IO (Nat → Float) := do
  let now ← Std.Time.Timestamp.now
  let seconds := Float.ofInt now.toSecondsSinceUnixEpoch.val
  return fun taken => seconds + taken.toFloat / 1000000.0

/-- Writes an answer. -/
def answer (response : Option Response) : IO UInt32 := do
  match response with
  | none => return 1
  | some response =>
      IO.print response.stdout
      IO.eprint response.stderr
      return response.status.toUInt32

/-- Writes what a dialogue has written and reported since the last time, and leaves it without. -/
def flush (dialogue : Dialogue) : IO Dialogue := do
  let stdout ← IO.getStdout
  stdout.putStr dialogue.written
  stdout.flush
  IO.eprint dialogue.reports
  return dialogue.cleared

/-- The rest of a line whose first bytes are given, with its newline if it has one. -/
partial def readLine (line : ByteArray) : IO ByteArray := do
  let byte ← (← IO.getStdin).read 1
  if byte.isEmpty || byte.data == #[0x0a] then
    return line ++ byte
  else
    readLine (line ++ byte)

/-- Runs lines as they are typed. -/
partial def converse (dialogue : Dialogue) : IO UInt32 := do
  let dialogue ← flush dialogue.prompt
  let bytes ← readLine .empty
  match Dialogue.lines bytes.data.toList with
  | [] =>
      let _ ← flush (dialogue.say "\n")
      return 0
  | line :: _ =>
      match dialogue.feedBytes stepBudget line with
      | none => return 1
      | some (.error _) => answer (some (.unreadableInput "" ""))
      | some (.ok dialogue) => converse (← flush dialogue)

/-- Runs the command that the arguments name. -/
def run (arguments : List String) : IO UInt32 := do
  match Command.ofArguments? arguments with
  | none =>
      IO.eprintln "Usage: [--log] tokenize [--json] FILE | parse FILE | evaluate FILE | run [FILE]"
      return 2
  | some ⟨.run, none⟩ => converse (.initial (← clockFromNow))
  | some command =>
      let bytes? ← match command.file with
        | some name => readFile? name
        | none => pure none
      answer (command.respond stepBudget (← clockFromNow) (fun _ => bytes?) .empty)

end LoxLang.Console

/-- The program answers the command that its arguments name. -/
def main (arguments : List String) : IO UInt32 :=
  LoxLang.Console.run arguments
