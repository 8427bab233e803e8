/-!
# Tokens

The words of a program: operators and punctuation (`Symbol`), reserved words (`Keyword`),
identifiers, number literals and string literals, each with its text and the line on which its text
ends.  The end of a program is not a token; whoever needs its line carries it beside the tokens.
-/

namespace LoxLang

/-- Operators and punctuation. -/
inductive Symbol where
  | leftParen
  | rightParen
  | leftBrace
  | rightBrace
  | comma
  | dot
  | minus
  | plus
  | semicolon
  | slash
  | star
  | bang
  | bangEqual
  | equal
  | equalEqual
  | greater
  | greaterEqual
  | less
  | lessEqual
deriving DecidableEq, Repr

namespace Symbol

/-- The symbol written with one character. -/
def ofChar? : Char → Option Symbol
  | '(' => some leftParen
  | ')' => some rightParen
  | '\x7b' => some leftBrace
  | '\x7d' => some rightBrace
  | ',' => some comma
  | '.' => some dot
  | '-' => some minus
  | '+' => some plus
  | ';' => some semicolon
  | '/' => some slash
  | '*' => some star
  | '!' => some bang
  | '=' => some equal
  | '>' => some greater
  | '<' => some less
  | _ => none

/-- The symbol written with a character and an equals sign after it. -/
def withEqual? : Char → Option Symbol
  | '!' => some bangEqual
  | '=' => some equalEqual
  | '>' => some greaterEqual
  | '<' => some lessEqual
  | _ => none

/-- The category under which token listings show a symbol. -/
def category : Symbol → String
  | leftParen => "LEFT_PAREN"
  | rightParen => "RIGHT_PAREN"
  | leftBrace => "LEFT_BRACE"
  | rightBrace => "RIGHT_BRACE"
  | comma => "COMMA"
  | dot => "DOT"
  | minus => "MINUS"
  | plus => "PLUS"
  | semicolon => "SEMICOLON"
  | slash => "SLASH"
  | star => "STAR"
  | bang => "BANG"
  | bangEqual => "BANG_EQUAL"
  | equal => "EQUAL"
  | equalEqual => "EQUAL_EQUAL"
  | greater => "GREATER"
  | greaterEqual => "GREATER_EQUAL"
  | less => "LESS"
  | lessEqual => "LESS_EQUAL"

end Symbol

/-- Reserved words. -/
inductive Keyword where
  | andKw
  | classKw
  | elseKw
  | falseKw
  | funKw
  | forKw
  | ifKw
  | nilKw
  | orKw
  | printKw
  | returnKw
  | superKw
  | thisKw
  | trueKw
  | varKw
  | whileKw
deriving DecidableEq, Repr

namespace Keyword

/-- The text of a reserved word. -/
def spelling : Keyword → String
  | andKw => "and"
  | classKw => "class"
  | elseKw => "else"
  | falseKw => "false"
  | funKw => "fun"
  | forKw => "for"
  | ifKw => "if"
  | nilKw => "nil"
  | orKw => "or"
  | printKw => "print"
  | returnKw => "return"
  | superKw => "super"
  | thisKw => "this"
  | trueKw => "true"
  | varKw => "var"
  | whileKw => "while"

/-- Every reserved word. -/
def all : List Keyword :=
  [andKw, classKw, elseKw, falseKw, funKw, forKw, ifKw, nilKw, orKw, printKw, returnKw, superKw,
    thisKw, trueKw, varKw, whileKw]

/-- The reserved word with a given text. -/
def ofSpelling? (word : String) : Option Keyword :=
  all.find? fun keyword => keyword.spelling == word

/-- The category under which token listings show a reserved word. -/
def category : Keyword → String
  | andKw => "AND"
  | classKw => "CLASS"
  | elseKw => "ELSE"
  | falseKw => "FALSE"
  | funKw => "FUN"
  | forKw => "FOR"
  | ifKw => "IF"
  | nilKw => "NIL"
  | orKw => "OR"
  | printKw => "PRINT"
  | returnKw => "RETURN"
  | superKw => "SUPER"
  | thisKw => "THIS"
  | trueKw => "TRUE"
  | varKw => "VAR"
  | whileKw => "WHILE"

/-- No two reserved words have the same text. -/
theorem spelling_injective {first second : Keyword}
    (h : first.spelling = second.spelling) : first = second := by
  cases first <;> cases second <;> first | rfl | exact absurd h (by decide)

/-- Every reserved word is found by its text. -/
theorem ofSpelling?_spelling (keyword : Keyword) :
    ofSpelling? keyword.spelling = some keyword := by
  cases keyword <;> decide

/-- Only its own text finds a reserved word. -/
theorem spelling_of_ofSpelling? {word : String} {keyword : Keyword}
    (h : ofSpelling? word = some keyword) : keyword.spelling = word := by
  simpa using List.find?_some h

end Keyword

/-- What a token is, with the value of a literal. -/
inductive Kind where
  | symbol (symbol : Symbol)
  | keyword (keyword : Keyword)
  | identifier
  | number (value : Float)
  | string (value : String)
deriving DecidableEq

/-- A word of a program: what it is, its text, and the line on which its text ends. -/
structure Token where
  kind : Kind
  lexeme : String
  line : Nat
deriving DecidableEq

namespace Token

/-- An identifier that the program does not spell out. -/
def named (name : String) (line : Nat) : Token :=
  { kind := .identifier, lexeme := name, line := line }

/-- Whether the token is a given symbol. -/
def isSymbol (token : Token) (symbol : Symbol) : Bool :=
  token.kind == .symbol symbol

/-- Whether the token is a given reserved word. -/
def isKeyword (token : Token) (keyword : Keyword) : Bool :=
  token.kind == .keyword keyword

/-- Whether the token is an identifier. -/
def isIdentifier (token : Token) : Bool :=
  token.kind == .identifier

end Token

end LoxLang
