/-!
# Quoted text

Two ways to write a text between quotation marks: as a JSON string, and as a file name in a
message.  They escape the same marks and differ in which control characters have short names.
-/

namespace LoxLang

/-- How text is written between quotation marks. -/
structure Quotation where
  /-- The escapes that have a name of their own, besides those of the quotation mark and the
  backslash. -/
  named : Char → Option Char
  /-- Which other characters are escaped by their number. -/
  numbered : Char → Bool
  /-- The escape of a character by its number. -/
  number : Nat → List Char

namespace Quotation

/-- One character between quotation marks. -/
def char (q : Quotation) (c : Char) : List Char :=
  if c == '"' || c == '\\' then
    ['\\', c]
  else
    match q.named c with
    | some name => ['\\', name]
    | none => if q.numbered c then q.number c.toNat else [c]

/-- A text between quotation marks. -/
def quote (q : Quotation) (text : String) : String :=
  String.ofList ('"' :: text.toList.flatMap q.char ++ ['"'])

/-- The hexadecimal digits of a number, filled up with zeros to a least width. -/
def hexadecimal (width value : Nat) : List Char :=
  let digits := Nat.toDigits 16 value
  List.replicate (width - digits.length) '0' ++ digits

/-- JSON strings: control characters are escaped and all else stands for itself. -/
def json : Quotation where
  named
    | '\n' => some 'n'
    | '\r' => some 'r'
    | '\t' => some 't'
    | '\x08' => some 'b'
    | '\x0c' => some 'f'
    | _ => none
  numbered c := c.toNat < 0x20
  number n := '\\' :: 'u' :: hexadecimal 4 n

/-- File names in messages: control characters are escaped, by number between braces where they
have no name. -/
def fileName : Quotation where
  named
    | '\n' => some 'n'
    | '\r' => some 'r'
    | '\t' => some 't'
    | '\x00' => some '0'
    | _ => none
  numbered c := c.toNat < 0x20 || (0x7f ≤ c.toNat && c.toNat < 0xa0)
  number n := '\\' :: 'u' :: '\x7b' :: hexadecimal 1 n ++ ['\x7d']

end Quotation

end LoxLang
