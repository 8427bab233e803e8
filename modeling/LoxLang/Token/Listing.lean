import LoxLang.Decimal.Layout
import LoxLang.Text.Quoted
import LoxLang.Token.Stream

/-!
# Token listings

Tokens written out for a reader, one per line as category, text and literal, or as JSON.  A listing
closes with an entry for the end of the text.
-/

namespace LoxLang

/-- Number literals in a listing always have a fraction, and an exponent from 10^16 on and below
10^-4.  Zero has no sign. -/
def Token.literalLayout : Layout where
  tie := .up
  positional order := -4 ≤ order && order < 16
  keepFraction := true
  wholeExact := false
  exponentPlus := false
  signedZero := false
  nan := "NaN"
  infinity := "inf"
  minusInfinity := "-inf"

/-- Numbers in JSON have a fraction or an exponent, which they need from 10^16 on and below 10^-5.
There is no JSON number for infinities, so these are null. -/
def Token.jsonLayout : Layout where
  tie := .even
  positional order := -5 ≤ order && order < 16
  keepFraction := true
  wholeExact := false
  exponentPlus := true
  signedZero := true
  nan := "null"
  infinity := "null"
  minusInfinity := "null"

namespace Kind

/-- The category under which a listing shows a token. -/
def category : Kind → String
  | .symbol sign => sign.category
  | .keyword word => word.category
  | .identifier => "IDENTIFIER"
  | .number _ => "NUMBER"
  | .string _ => "STRING"

/-- The literal that a listing shows for a token. -/
def literal : Kind → String
  | .number value => Token.literalLayout.write value
  | .string value => value
  | _ => "null"

/-- What a token is, as JSON: its category, with the value of a literal. -/
def json : Kind → String
  | .number value => "\x7b\"NUMBER\":" ++ Token.jsonLayout.write value ++ "\x7d"
  | .string value => "\x7b\"STRING\":" ++ Quotation.json.quote value ++ "\x7d"
  | kind => Quotation.json.quote kind.category

end Kind

/-- An entry of a token listing. -/
structure Entry where
  category : String
  lexeme : String
  literal : String
  /-- The category and literal in JSON. -/
  jsonKind : String
  line : Nat

namespace Entry

/-- The entry of a token. -/
def ofToken (token : Token) : Entry where
  category := token.kind.category
  lexeme := token.lexeme
  literal := token.kind.literal
  jsonKind := token.kind.json
  line := token.line

/-- The entry that closes a listing. -/
def atEnd (line : Nat) : Entry where
  category := "EOF"
  lexeme := ""
  literal := "null"
  jsonKind := "\"EOF\""
  line := line

/-- An entry as category, text and literal. -/
def text (entry : Entry) : String :=
  entry.category ++ " " ++ entry.lexeme ++ " " ++ entry.literal

/-- An entry as JSON. -/
def json (entry : Entry) : String :=
  "\x7b\"token_type\":" ++ entry.jsonKind ++ ",\"lexeme\":" ++ Quotation.json.quote entry.lexeme
    ++ ",\"line\":" ++ toString entry.line ++ "\x7d"

end Entry

/-- The listing of a stream: an entry for each token, the faults between them, and the end. -/
def TokenStream.listing (stream : TokenStream) : List (Except LexicalFault Entry) :=
  (stream.items.map fun
    | .token token => .ok (Entry.ofToken token)
    | .fault fault => .error fault) ++ [.ok (Entry.atEnd stream.endLine)]

end LoxLang
