import LoxLang.Token.Piece

/-!
# The tokens of a source text

The pieces of a source text with their lines: tokens, and faults where a character starts no token
or a string is never closed.  A piece has the line on which its text ends, counted from one.
-/

namespace LoxLang

/-- Why a piece of text is no token. -/
inductive LexicalCause where
  | unexpectedCharacter
  | unterminatedString
deriving DecidableEq, Repr

/-- A piece of text that is no token, with its line. -/
structure LexicalFault where
  cause : LexicalCause
  line : Nat
deriving DecidableEq, Repr

/-- A token or a fault. -/
inductive Item where
  | token (token : Token)
  | fault (fault : LexicalFault)
deriving DecidableEq

/-- How many newlines a text holds. -/
def newlines (text : List Char) : Nat :=
  text.count '\n'

/-- What a piece that ends on a given line shows of itself; blanks and comments show nothing. -/
def Piece.item? (line : Nat) : Piece → Option Item
  | .blank _ => none
  | .comment _ => none
  | .lexeme kind text => some (.token ⟨kind, String.ofList text, line⟩)
  | .stray _ => some (.fault ⟨.unexpectedCharacter, line⟩)
  | .openString _ => some (.fault ⟨.unterminatedString, line⟩)

/-- The tokens and faults of a source text in order, and the line on which the text ends. -/
structure TokenStream where
  items : List Item
  endLine : Nat

namespace TokenStream

/-- The items of successive pieces, the first of which starts on a given line. -/
def itemsFrom (line : Nat) : List Piece → List Item
  | [] => []
  | piece :: rest =>
      let line := line + newlines piece.text
      match piece.item? line with
      | some item => item :: itemsFrom line rest
      | none => itemsFrom line rest

/-- The tokens and faults of a source text. -/
def ofChars (source : List Char) : TokenStream :=
  { items := itemsFrom 1 (Piece.pieces source), endLine := 1 + newlines source }

/-- The tokens and faults of a source text. -/
def ofSource (source : String) : TokenStream :=
  ofChars source.toList

/-- The tokens of a stream. -/
def tokens (stream : TokenStream) : List Token :=
  stream.items.filterMap fun
    | .token token => some token
    | .fault _ => none

/-- The faults of a stream. -/
def faults (stream : TokenStream) : List LexicalFault :=
  stream.items.filterMap fun
    | .token _ => none
    | .fault fault => some fault

end TokenStream

end LoxLang
