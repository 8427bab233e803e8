import LoxLang.Grammar.Fault
import LoxLang.Tree.Basic

/-!
# Reading tokens

A `Cursor` stands between the tokens that have been read and those that have not.  A grammar rule is
a `Reading`: it moves the cursor forward and yields a tree, or stops at the first fault that it
cannot read past.  Faults that do not stop a rule are noted in the cursor.
-/

namespace LoxLang

/-- What is left to read, and what reading has produced besides trees. -/
structure Cursor where
  rest : List Token
  /-- The line on which the text ends. -/
  endLine : Nat
  /-- The faults noted so far, the latest first. -/
  noted : List SyntaxFault
  /-- The number of the next occurrence. -/
  nextId : NodeId

/-- How many parameters a function and how many arguments a call may have. -/
def argumentLimit : Nat := 255

/-- A rule of the grammar. -/
abbrev Reading := ExceptT SyntaxFault (StateM Cursor)

namespace Cursor

/-- The place of the next token. -/
def place (cursor : Cursor) : Place :=
  match cursor.rest with
  | token :: _ => .token token
  | [] => .textEnd cursor.endLine

end Cursor

namespace Reading

/-- Stops at the next token. -/
def stop {α : Type} (cause : SyntaxCause) : Reading α := do
  throw ⟨cause, (← get).place⟩

/-- Notes a fault and goes on. -/
def note (fault : SyntaxFault) : Reading Unit :=
  modify fun cursor => { cursor with noted := fault :: cursor.noted }

/-- Notes a fault at the next token and goes on. -/
def noteHere (cause : SyntaxCause) : Reading Unit := do
  note ⟨cause, (← get).place⟩

/-- Whether all tokens have been read. -/
def atEnd : Reading Bool :=
  return (← get).rest.isEmpty

/-- How many tokens are left to read.  Since a repetition reads a token each time, no rule repeats
more often. -/
def remaining : Reading Nat :=
  return (← get).rest.length

/-- Whether the next token passes a test. -/
def nextIs (test : Token → Bool) : Reading Bool :=
  return match (← get).rest with
    | token :: _ => test token
    | [] => false

/-- Reads the next token if it passes a test. -/
def accept? (test : Token → Bool) : Reading (Option Token) := do
  let cursor ← get
  match cursor.rest with
  | [] => return none
  | token :: rest =>
      if test token then
        set { cursor with rest := rest }
        return some token
      else
        return none

/-- Whether the next token passes a test; if so it is read. -/
def accepts (test : Token → Bool) : Reading Bool :=
  return (← accept? test).isSome

/-- Reads the next token, which has to pass a test. -/
def expect (test : Token → Bool) (cause : SyntaxCause) : Reading Token := do
  match ← accept? test with
  | some token => return token
  | none => stop cause

/-- Reads the next token, which has to be a given symbol. -/
def expectSymbol (symbol : Symbol) (cause : SyntaxCause) : Reading Token :=
  expect (·.isSymbol symbol) cause

/-- Reads the next token, which has to be an identifier. -/
def expectIdentifier (cause : SyntaxCause) : Reading Token :=
  expect Token.isIdentifier cause

/-- Whether the next token is a given symbol; if so it is read. -/
def acceptsSymbol (symbol : Symbol) : Reading Bool :=
  accepts (·.isSymbol symbol)

/-- Whether the next token is a given reserved word; if so it is read. -/
def acceptsKeyword (keyword : Keyword) : Reading Bool :=
  accepts (·.isKeyword keyword)

/-- Gives a number to an occurrence of a name. -/
def occurrence (name : Token) : Reading Occurrence := do
  let cursor ← get
  set { cursor with nextId := cursor.nextId + 1 }
  return ⟨cursor.nextId, name⟩

/-- Items with commas in between from the one after the first `count` on, at most `limit` of them.
An item too many is noted, and read all the same. -/
def itemsFrom {α : Type} (item : Reading α) (excess : SyntaxCause) :
    (limit count : Nat) → Reading (List α)
  | 0, _ => return []
  | limit + 1, count => do
      if argumentLimit ≤ count then
        noteHere excess
      let first ← item
      if ← acceptsSymbol .comma then
        return first :: (← itemsFrom item excess limit (count + 1))
      else
        return [first]

/-- Items with commas in between, if a closing parenthesis does not stand in their place. -/
def items {α : Type} (item : Reading α) (excess : SyntaxCause) : Reading (List α) := do
  if ← nextIs (·.isSymbol .rightParen) then
    return []
  else
    itemsFrom item excess ((← remaining) + 1) 0

end Reading

/-- How deep statements, function bodies, expressions, assigned values and operands of unary
operators may stand in one another. -/
def nestingLimit : Nat := 256

end LoxLang
