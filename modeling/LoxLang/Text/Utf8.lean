/-!
# UTF-8

Where a sequence of bytes stops being UTF-8, and the text of bytes that a limit may have cut in the
middle of a character.

A character is a first byte and up to three more.  What has been read of a character allows a range
of values for the next byte; a byte outside it makes the bytes of the character so far invalid.
-/

namespace LoxLang

namespace Utf8

/-- Why bytes are not UTF-8, with the index of the first byte of the character concerned. -/
inductive Fault where
  /-- `length` bytes that begin no character. -/
  | invalid (length index : Nat)
  /-- The bytes end inside a character. -/
  | incomplete (index : Nat)
deriving DecidableEq, Repr

/-- What a character that has begun still needs: how many bytes, and the least and the greatest
value of the next one. -/
structure Need where
  owed : Nat
  least : UInt8
  greatest : UInt8
deriving DecidableEq, Repr

/-- What the bytes after the first need if any value of a later byte will do. -/
def Need.any (owed : Nat) : Need :=
  ⟨owed, 0x80, 0xbf⟩

/-- What a character needs after its first byte; nothing if no character begins with it.  The ranges
leave out characters that have a shorter form, surrogates, and numbers beyond the last character. -/
def need? (first : UInt8) : Option Need :=
  if first < 0x80 then some (.any 0)
  else if first < 0xc2 then none
  else if first < 0xe0 then some (.any 1)
  else if first = 0xe0 then some ⟨2, 0xa0, 0xbf⟩
  else if first = 0xed then some ⟨2, 0x80, 0x9f⟩
  else if first < 0xf0 then some (.any 2)
  else if first = 0xf0 then some ⟨3, 0x90, 0xbf⟩
  else if first < 0xf4 then some (.any 3)
  else if first = 0xf4 then some ⟨3, 0x80, 0x8f⟩
  else none

/-- The first fault in bytes, of which `taken` that belong to the character at `index` have been
read, and `need` is what that character still needs. -/
def faultFrom (index taken : Nat) (need : Need) : List UInt8 → Option Fault
  | [] => if need.owed = 0 then none else some (.incomplete index)
  | byte :: rest =>
      if need.owed = 0 then
        match need? byte with
        | some need => faultFrom (index + taken) 1 need rest
        | none => some (.invalid 1 (index + taken))
      else if need.least ≤ byte && byte ≤ need.greatest then
        faultFrom index (taken + 1) (.any (need.owed - 1)) rest
      else
        some (.invalid taken index)

/-- The first fault in a sequence of bytes. -/
def fault? (bytes : ByteArray) : Option Fault :=
  faultFrom 0 0 (.any 0) bytes.data.toList

/-- The text of bytes, or the first fault in them. -/
def decode (bytes : ByteArray) : Except Fault String :=
  match String.fromUTF8? bytes with
  | some text => .ok text
  | none => .error ((fault? bytes).getD (.incomplete 0))

/-- The text of bytes that may end inside a character; what is there of that character shows as a
replacement character. -/
def decodeCut (bytes : ByteArray) : String :=
  match decode bytes with
  | .ok text => text
  | .error (.incomplete index) | .error (.invalid _ index) =>
      (String.fromUTF8? (bytes.extract 0 index)).getD "" ++ "\uFFFD"

namespace Fault

def message : Fault → String
  | invalid length index =>
      "invalid utf-8 sequence of " ++ toString length ++ " bytes from index " ++ toString index
  | incomplete index => "incomplete utf-8 byte sequence from index " ++ toString index

end Fault

end Utf8

end LoxLang
