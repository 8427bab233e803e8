import LoxLang.Token.Basic

/-!
# Splitting a text into pieces

A source text falls apart into pieces: blanks, comments, tokens, stray characters that start no
token, and at most one string that is never closed.  A token takes the longest text that it can.
The texts of the pieces, put together, are the source (`text_pieces`), and no piece is empty.
-/

namespace LoxLang

/-- A stretch of source text. -/
inductive Piece where
  /-- A space, tab, carriage return or newline. -/
  | blank (char : Char)
  /-- Two slashes and the rest of their line, without the newline. -/
  | comment (text : List Char)
  | lexeme (kind : Kind) (text : List Char)
  /-- A character that starts no token. -/
  | stray (char : Char)
  /-- A quotation mark that no other one follows, and all the text after it. -/
  | openString (text : List Char)

namespace Piece

/-- The source text of a piece. -/
def text : Piece → List Char
  | blank char => [char]
  | comment text => text
  | lexeme _ text => text
  | stray char => [char]
  | openString text => text

end Piece

/-- The characters that separate tokens and mean nothing else. -/
def isBlank (char : Char) : Bool :=
  char == ' ' || char == '\r' || char == '\t' || char == '\n'

/-- The characters that start an identifier: ASCII letters and the underscore. -/
def startsWord (char : Char) : Bool :=
  char.isAlpha || char == '_'

/-- The characters that continue an identifier: those that start one, and ASCII digits. -/
def continuesWord (char : Char) : Bool :=
  char.isAlphanum || char == '_'

/-- The binary64 number nearest to a decimal with the given digits before and after its point. -/
def decimalValue (whole fraction : List Char) : Float :=
  Float.ofScientific (Nat.ofDigitChars 10 (whole ++ fraction) 0) true fraction.length

/-- What a text is read as: digits, among or beside which there may be one point.  Every other text
is refused.  A sign, an exponent, or a name such as that of infinity is not provided for, since none
of them is ever part of the text of a number. -/
def decimal? (text : List Char) : Option Float :=
  let whole := text.takeWhile (· != '.')
  let fraction := (text.dropWhile (· != '.')).drop 1
  if (whole ++ fraction).all Char.isDigit && !(whole ++ fraction).isEmpty then
    some (decimalValue whole fraction)
  else
    none

namespace Piece

/-- The number with a given text; it is zero if the text cannot be read. -/
def numberOf (text : List Char) : Piece :=
  lexeme (.number ((decimal? text).getD 0)) text

/-- The number that starts with the digit `first`: digits, and a point with digits after it if
there is a digit after the point. -/
def number (first : Char) (rest : List Char) : Piece × List Char :=
  let whole := first :: rest.takeWhile Char.isDigit
  let wholeOnly := (numberOf whole, rest.dropWhile Char.isDigit)
  match rest.dropWhile Char.isDigit with
  | '.' :: afterPoint =>
      match afterPoint.takeWhile Char.isDigit with
      | [] => wholeOnly
      | fraction => (numberOf (whole ++ '.' :: fraction), afterPoint.dropWhile Char.isDigit)
  | _ => wholeOnly

/-- The identifier or reserved word that starts with `first`. -/
def word (first : Char) (rest : List Char) : Piece × List Char :=
  let text := first :: rest.takeWhile continuesWord
  let kind :=
    match Keyword.ofSpelling? (String.ofList text) with
    | some keyword => .keyword keyword
    | none => .identifier
  (lexeme kind text, rest.dropWhile continuesWord)

/-- The string whose opening quotation mark stands before `rest`. -/
def quoted (rest : List Char) : Piece × List Char :=
  let value := rest.takeWhile (· != '"')
  match rest.dropWhile (· != '"') with
  | [] => (openString ('"' :: value), [])
  | _ :: after => (lexeme (.string (String.ofList value)) ('"' :: value ++ ['"']), after)

/-- The symbol that starts with `first`, or `first` as a stray character. -/
def symbolOrStray (first : Char) (rest : List Char) : Piece × List Char :=
  match Symbol.withEqual? first, rest with
  | some symbol, '=' :: after => (lexeme (.symbol symbol) [first, '='], after)
  | _, _ =>
      match Symbol.ofChar? first with
      | some symbol => (lexeme (.symbol symbol) [first], rest)
      | none => (stray first, rest)

/-- The first piece of the text `first :: rest`, and the text after it. -/
def next (first : Char) (rest : List Char) : Piece × List Char :=
  if isBlank first then
    (blank first, rest)
  else if first == '/' && rest.head? == some '/' then
    (comment (first :: rest.takeWhile (· != '\n')), rest.dropWhile (· != '\n'))
  else if first == '"' then
    quoted rest
  else if first.isDigit then
    number first rest
  else if startsWord first then
    word first rest
  else
    symbolOrStray first rest

theorem text_numberOf (text : List Char) : (numberOf text).text = text :=
  rfl

theorem text_number (first : Char) (rest : List Char) :
    (number first rest).1.text ++ (number first rest).2 = first :: rest := by
  have hrest := List.takeWhile_append_dropWhile (p := Char.isDigit) (l := rest)
  unfold number
  simp only
  split
  · rename_i afterPoint hdrop
    have hafter := List.takeWhile_append_dropWhile (p := Char.isDigit) (l := afterPoint)
    split
    · simpa [hdrop, text_numberOf] using hrest
    · simpa [hdrop, text_numberOf, hafter] using hrest
  · simp [text_numberOf]

theorem text_word (first : Char) (rest : List Char) :
    (word first rest).1.text ++ (word first rest).2 = first :: rest := by
  simp [word, text]

theorem text_quoted (rest : List Char) :
    (quoted rest).1.text ++ (quoted rest).2 = '"' :: rest := by
  have hrest := List.takeWhile_append_dropWhile (p := (· != '"')) (l := rest)
  unfold quoted
  simp only
  split
  · rename_i hdrop
    simpa [hdrop, text] using hrest
  · rename_i mark after hdrop
    have hmark : mark = '"' := by
      simpa [hdrop] using List.head?_dropWhile_not (· != '"') rest
    subst hmark
    simpa [hdrop, text] using hrest

theorem text_symbolOrStray (first : Char) (rest : List Char) :
    (symbolOrStray first rest).1.text ++ (symbolOrStray first rest).2 = first :: rest := by
  unfold symbolOrStray
  split
  · rfl
  · split <;> rfl

/-- The first piece takes its text off the front. -/
theorem text_next (first : Char) (rest : List Char) :
    (next first rest).1.text ++ (next first rest).2 = first :: rest := by
  unfold next
  split
  · rfl
  split
  · simp [text]
  split
  · rename_i hmark
    obtain rfl : first = '"' := by simpa using hmark
    exact text_quoted rest
  split
  · exact text_number first rest
  split
  · exact text_word first rest
  · exact text_symbolOrStray first rest

/-- The first piece has at least one character. -/
theorem text_next_ne_nil (first : Char) (rest : List Char) :
    (next first rest).1.text ≠ [] := by
  unfold next quoted number numberOf word symbolOrStray
  simp only
  repeat' split
  all_goals simp [text]

/-- What follows the first piece is shorter than the text. -/
theorem length_next (first : Char) (rest : List Char) :
    (next first rest).2.length ≤ rest.length := by
  have happend := congrArg List.length (text_next first rest)
  have hne := List.length_pos_iff.2 (text_next_ne_nil first rest)
  simp only [List.length_append, List.length_cons] at happend
  omega

/-- The first pieces of a text, at most as many as `limit`. -/
def upTo : (limit : Nat) → List Char → List Piece
  | 0, _ => []
  | _ + 1, [] => []
  | limit + 1, first :: rest =>
      let (piece, after) := next first rest
      piece :: upTo limit after

/-- The pieces of a text.  There are no more of them than characters, since none is empty. -/
def pieces (source : List Char) : List Piece :=
  upTo source.length source

/-- A limit of as many pieces as characters loses nothing. -/
theorem text_upTo (limit : Nat) (source : List Char) (h : source.length ≤ limit) :
    (upTo limit source).flatMap text = source := by
  induction limit generalizing source with
  | zero =>
      obtain rfl : source = [] := List.eq_nil_of_length_eq_zero (Nat.le_zero.1 h)
      rfl
  | succ limit ih =>
      cases source with
      | nil => rfl
      | cons first rest =>
          have hlength := length_next first rest
          have hrest : rest.length ≤ limit := Nat.le_of_succ_le_succ h
          simp only [upTo, List.flatMap_cons]
          rw [ih _ (Nat.le_trans hlength hrest), text_next]

/-- The texts of the pieces, put together, are the source. -/
theorem text_pieces (source : List Char) : (pieces source).flatMap text = source :=
  text_upTo source.length source (Nat.le_refl _)

end Piece

end LoxLang
