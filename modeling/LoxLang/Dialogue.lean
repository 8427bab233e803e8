import LoxLang.Session
import LoxLang.Text.Utf8

/-!
# Dialogues

A dialogue reads lines and runs each of them in one session, after a prompt.  A fault in a line is
forgotten before the next one.
-/

namespace LoxLang

/-- A session that is fed line by line. -/
structure Dialogue where
  session : Session
  /-- All that has been reported. -/
  reports : String

namespace Dialogue

/-- A dialogue in which no line has been read. -/
def initial (reading : Nat → Float) : Dialogue :=
  ⟨.initial none reading, ""⟩

/-- Writes a text between the outputs of the lines. -/
def say (dialogue : Dialogue) (text : String) : Dialogue :=
  let ⟨⟨⟨store, distances, output, clock⟩, nextId, hadError, hadRuntimeError⟩, reports⟩ := dialogue
  ⟨⟨⟨store, distances, (output.write text).1, clock⟩, nextId, hadError, hadRuntimeError⟩, reports⟩

/-- Asks for a line. -/
def prompt (dialogue : Dialogue) : Dialogue :=
  dialogue.say "> "

/-- Runs a line. -/
def feed (dialogue : Dialogue) (budget : Nat) (line : String) : Option Dialogue :=
  (dialogue.session.runLine budget line).map fun (session, diagnostics) =>
    ⟨session.forget, dialogue.reports ++ Diagnostic.report diagnostics⟩

/-- A line without the carriage return at its end. -/
def withoutReturn (line : List UInt8) : List UInt8 :=
  if line.getLast? == some 0x0d then line.dropLast else line

/-- The lines of a text in bytes.  A line ends at a newline, which may have a carriage return before
it; after the last newline there is a line only if there are bytes. -/
def lines (bytes : List UInt8) : List (List UInt8) :=
  let parts := bytes.splitOn 0x0a
  let ended := parts.dropLast.map withoutReturn
  match parts.getLast? with
  | some (byte :: rest) => ended ++ [byte :: rest]
  | _ => ended

/-- Runs a line given in bytes; nothing if they are not UTF-8. -/
def feedBytes (dialogue : Dialogue) (budget : Nat) (line : List UInt8) :
    Option (Except Utf8.Fault Dialogue) :=
  match Utf8.decode ⟨line.toArray⟩ with
  | .error fault => some (.error fault)
  | .ok text => (dialogue.feed budget text).map .ok

/-- Reads and runs lines up to the end, or to one that is not UTF-8; says whether the end was
reached. -/
def feedAll (dialogue : Dialogue) (budget : Nat) : List (List UInt8) → Option (Dialogue × Bool)
  | [] => some (dialogue.prompt.say "\n", true)
  | line :: rest =>
      let dialogue := dialogue.prompt
      match dialogue.feedBytes budget line with
      | none => none
      | some (.error _) => some (dialogue, false)
      | some (.ok dialogue) => dialogue.feedAll budget rest

/-- What has been written. -/
def written (dialogue : Dialogue) : String :=
  Utf8.decodeCut dialogue.session.world.output.written

/-- A dialogue with nothing written and nothing reported so far. -/
def cleared (dialogue : Dialogue) : Dialogue :=
  let ⟨⟨⟨store, distances, output, clock⟩, nextId, hadError, hadRuntimeError⟩, _⟩ := dialogue
  ⟨⟨⟨store, distances, .empty output.capacity, clock⟩, nextId, hadError, hadRuntimeError⟩, ""⟩

end Dialogue

end LoxLang
