import LoxLang.Grammar.Cursor

/-!
# Expressions

The rules for expressions, from the loosest to the tightest:

    expression  assignment
    assignment  ( call "." )? IDENTIFIER "=" assignment | or
    or          and ( "or" and )*
    and         equality ( "and" equality )*
    equality    comparison ( ( "!=" | "==" ) comparison )*
    comparison  term ( ( ">" | ">=" | "<" | "<=" ) term )*
    term        factor ( ( "-" | "+" ) factor )*
    factor      unary ( ( "/" | "*" ) unary )*
    unary       ( "!" | "-" ) unary | call
    call        primary ( "(" arguments? ")" | "." IDENTIFIER )*
    arguments   expression ( "," expression )*
    primary     NUMBER | STRING | "true" | "false" | "nil" | "this" | IDENTIFIER
                | "(" expression ")" | "super" "." IDENTIFIER

An expression, an assigned value and the operand of a unary operator each open a nesting.  The rules
take what may stand inside a nesting as a parameter, `Inner`, and `expressions n` ties the knot for
at most `n` nestings inside one another; so the recursion is on the nestings that are left.
-/

namespace LoxLang

namespace Grammar

open Reading

/-- What opens a nesting inside an expression. -/
structure Inner where
  /-- An expression or an assigned value. -/
  expression : Reading Expr
  /-- The operand of a unary operator. -/
  operand : Reading Expr

/-- The operators of a left-associative level: which tokens they are, and the tree of one with its
two operands. -/
structure Level where
  operators : List Kind
  node : Token → Expr → Expr → Expr

namespace Level

/-- The operators `or`. -/
def disjunction : Level := ⟨[.keyword .orKw], .logical⟩

/-- The operators `and`. -/
def conjunction : Level := ⟨[.keyword .andKw], .logical⟩

/-- Tests of equality. -/
def equality : Level := ⟨[.symbol .bangEqual, .symbol .equalEqual], .binary⟩

/-- Tests of order. -/
def comparison : Level :=
  ⟨[.symbol .greater, .symbol .greaterEqual, .symbol .less, .symbol .lessEqual], .binary⟩

/-- Sums and differences. -/
def term : Level := ⟨[.symbol .minus, .symbol .plus], .binary⟩

/-- Products and quotients. -/
def factor : Level := ⟨[.symbol .slash, .symbol .star], .binary⟩

/-- Whether a token is an operator of the level. -/
def has (level : Level) (token : Token) : Bool :=
  level.operators.contains token.kind

end Level

/-- The operators and operands that follow a first operand, at most `limit` of them. -/
def operations (level : Level) (next : Reading Expr) : (limit : Nat) → Expr → Reading Expr
  | 0, left => return left
  | limit + 1, left => do
      match ← accept? level.has with
      | none => return left
      | some operator =>
          let right ← next
          operations level next limit (level.node operator left right)

/-- A level of operators: operands of the next tighter level with operators between them. -/
def chain (level : Level) (next : Reading Expr) : Reading Expr := do
  let first ← next
  if ← nextIs level.has then
    operations level next (← remaining) first
  else
    return first

/-- The arguments of a call and its closing parenthesis; the opening one has been read. -/
def finishCall (inner : Inner) (callee : Expr) : Reading Expr := do
  let arguments ← items inner.expression .tooManyArguments
  let paren ← expectSymbol .rightParen .parenAfterArguments
  return .call callee paren arguments

/-- The constant that a token denotes. -/
def literal? : Kind → Option Literal
  | .keyword .falseKw => some (.bool false)
  | .keyword .trueKw => some (.bool true)
  | .keyword .nilKw => some .nil
  | .number value => some (.number value)
  | .string value => some (.string value)
  | _ => none

/-- A constant, a name, `this`, a method of the superclass, or an expression in parentheses. -/
def primary (inner : Inner) : Reading Expr := do
  match ← accept? fun token => (literal? token.kind).isSome with
  | some token => return .literal ((literal? token.kind).getD .nil)
  | none =>
  match ← accept? (·.isKeyword .superKw) with
  | some keyword =>
      let _ ← expectSymbol .dot .dotAfterSuper
      let method ← expectIdentifier .superclassMethodName
      return .superRef (← occurrence keyword) method
  | none =>
  match ← accept? (·.isKeyword .thisKw) with
  | some keyword => return .thisRef (← occurrence keyword)
  | none =>
  match ← accept? Token.isIdentifier with
  | some name => return .variable (← occurrence name)
  | none =>
  if ← acceptsSymbol .leftParen then
    let expression ← inner.expression
    let _ ← expectSymbol .rightParen .parenAfterExpression
    return .grouping expression
  else
    stop .expression

/-- The calls and properties that follow a first expression, at most `limit` of them. -/
def selections (inner : Inner) : (limit : Nat) → Expr → Reading Expr
  | 0, subject => return subject
  | limit + 1, subject => do
      if ← acceptsSymbol .leftParen then
        selections inner limit (← finishCall inner subject)
      else if ← acceptsSymbol .dot then
        let name ← expectIdentifier .propertyName
        selections inner limit (.get subject name)
      else
        return subject

/-- A primary expression with the calls and properties after it. -/
def call (inner : Inner) : Reading Expr := do
  let subject ← primary inner
  if ← nextIs fun token => token.isSymbol .leftParen || token.isSymbol .dot then
    selections inner (← remaining) subject
  else
    return subject

/-- A unary operator with its operand, or a call. -/
def unary (inner : Inner) : Reading Expr := do
  match ← accept? fun token => token.isSymbol .bang || token.isSymbol .minus with
  | some operator => return .unary operator (← inner.operand)
  | none => call inner

/-- The levels of binary operators. -/
def disjunction (inner : Inner) : Reading Expr :=
  chain .disjunction <| chain .conjunction <| chain .equality <| chain .comparison <|
    chain .term <| chain .factor <| unary inner

/-- The assignment of a value to what stands left of the equals sign.  If that is neither a variable
nor a property, this is noted and the value is dropped. -/
def assignTo (target : Expr) (equal : Token) (value : Expr) : Reading Expr :=
  match target with
  | .variable place => return .assign (← occurrence place.name) value
  | .get object name => return .set object name value
  | _ => do
      note ⟨.assignmentTarget, .token equal⟩
      return target

/-- An assignment, or an expression without one.  What stands left of the equals sign is read as an
expression first, and the assigned value is read before it is looked at. -/
def assignment (inner : Inner) : Reading Expr := do
  let target ← disjunction inner
  match ← accept? (·.isSymbol .equal) with
  | none => return target
  | some equal => assignTo target equal (← inner.expression)

/-- The rules when no nesting may be opened any more. -/
def Inner.full : Inner :=
  { expression := stop .nesting, operand := stop .nesting }

/-- The rules when one nesting more may be opened. -/
def Inner.opened (inner : Inner) : Inner :=
  { expression := assignment inner, operand := unary inner }

/-- The rules when `n` nestings may still be opened. -/
def expressions : (n : Nat) → Inner
  | 0 => .full
  | n + 1 => (expressions n).opened

end Grammar

/-- A tree, or the faults that stand in its way, and the number of the next occurrence. -/
structure Parsed (α : Type) where
  result : Except (List SyntaxFault) α
  nextId : NodeId

namespace Parsed

/-- Runs a rule over a whole list of tokens.  A noted fault spoils the tree. -/
def ofReading {α : Type} (rule : Reading α) (tokens : List Token) (endLine : Nat)
    (nextId : NodeId) : Parsed α :=
  match rule.run.run { rest := tokens, endLine := endLine, noted := [], nextId := nextId } with
  | (.ok tree, cursor) =>
      if cursor.noted.isEmpty then
        ⟨.ok tree, cursor.nextId⟩
      else
        ⟨.error cursor.noted.reverse, cursor.nextId⟩
  | (.error fault, cursor) => ⟨.error (fault :: cursor.noted).reverse, cursor.nextId⟩

end Parsed

namespace Grammar

open Reading

/-- A single expression that takes up all tokens. -/
def wholeExpression : Reading Expr := do
  let expression ← (expressions nestingLimit).expression
  if ← atEnd then
    return expression
  else
    stop .endOfExpression

end Grammar

/-- Reads a single expression. -/
def Expr.parse (tokens : List Token) (endLine : Nat) (nextId : NodeId) : Parsed Expr :=
  .ofReading Grammar.wholeExpression tokens endLine nextId

end LoxLang
