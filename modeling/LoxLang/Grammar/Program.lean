import LoxLang.Grammar.Expression

/-!
# Statements and programs

The rules for statements:

    program      declaration*
    declaration  class | "fun" function | var | statement
    class        "class" IDENTIFIER ( "<" IDENTIFIER )? "{" function* "}"
    function     IDENTIFIER "(" parameters? ")" block
    parameters   IDENTIFIER ( "," IDENTIFIER )*
    var          "var" IDENTIFIER ( "=" expression )? ";"
    statement    expression ";" | for | if | "print" expression ";"
                 | "return" expression? ";" | while | block
    for          "for" "(" ( var | expression ";" | ";" ) expression? ";" expression? ")" statement
    if           "if" "(" expression ")" statement ( "else" statement )?
    while        "while" "(" expression ")" statement
    block        "{" declaration* "}"

A statement and a function body each open a nesting, as expressions do.  A fault that stops a
declaration is noted; reading goes on at the next place that looks like the start of a statement, so
that each faulty declaration is reported once.
-/

namespace LoxLang

namespace Grammar

open Reading

/-- What opens a nesting inside a statement. -/
structure Enclosed extends Inner where
  statement : Reading Stmt
  /-- The declarations of a function body and its closing brace. -/
  body : Reading (List Stmt)

/-- A function or method from its name on. -/
def function (inner : Enclosed) (sort : FunctionSort) : Reading FunctionDecl := do
  let name ← expectIdentifier (.functionName sort)
  let _ ← expectSymbol .leftParen (.parenAfterFunctionName sort)
  let params ← items (expectIdentifier .parameterName) .tooManyParameters
  let _ ← expectSymbol .rightParen .parenAfterParameters
  let _ ← expectSymbol .leftBrace (.braceBeforeFunctionBody sort)
  return .mk name params (← inner.body)

/-- Whether a list of declarations or methods ends here: at a closing brace or at the end. -/
def bodyEnds : Reading Bool :=
  return (← nextIs (·.isSymbol .rightBrace)) || (← atEnd)

/-- The methods of a class, at most `limit`. -/
def methods (inner : Enclosed) : (limit : Nat) → Reading (List FunctionDecl)
  | 0 => return []
  | limit + 1 => do
      if ← bodyEnds then
        return []
      else
        let method ← function inner .method
        return method :: (← methods inner limit)

/-- The superclass clause of a class, if it has one. -/
def inheritance : Reading (Option Occurrence) := do
  if ← acceptsSymbol .less then
    return some (← occurrence (← expectIdentifier .superclassName))
  else
    return none

/-- A class from its name on. -/
def classDeclaration (inner : Enclosed) : Reading Stmt := do
  let name ← expectIdentifier .className
  let superclass ← inheritance
  let _ ← expectSymbol .leftBrace .braceBeforeClassBody
  let methods ← methods inner (← remaining)
  let _ ← expectSymbol .rightBrace .braceAfterClassBody
  return .classDecl name superclass methods

/-- The value that a variable declaration gives its variable, if it gives one. -/
def variableValue (inner : Enclosed) : Reading (Option Expr) := do
  if ← acceptsSymbol .equal then
    return some (← inner.expression)
  else
    return none

/-- A variable declaration from its name on. -/
def varDeclaration (inner : Enclosed) : Reading Stmt := do
  let name ← expectIdentifier .variableName
  let initializer ← variableValue inner
  let _ ← expectSymbol .semicolon .semicolonAfterVariable
  return .varDecl name initializer

/-- An expression followed by a semicolon. -/
def expressionStatement (inner : Enclosed) : Reading Stmt := do
  let value ← inner.expression
  let _ ← expectSymbol .semicolon .semicolonAfterExpression
  return .expression value

/-- An expression, unless a given symbol stands in its place. -/
def expressionUnless (inner : Enclosed) (symbol : Symbol) : Reading (Option Expr) := do
  if ← nextIs (·.isSymbol symbol) then
    return none
  else
    return some (← inner.expression)

/-- What a counting loop does first, with the semicolon behind it. -/
def loopInitializer (inner : Enclosed) : Reading (Option Stmt) := do
  if ← acceptsSymbol .semicolon then
    return none
  else if ← acceptsKeyword .varKw then
    return some (← varDeclaration inner)
  else
    return some (← expressionStatement inner)

/-- A counting loop after its first word. -/
def forLoop (inner : Enclosed) : Reading Stmt := do
  let _ ← expectSymbol .leftParen .parenAfterFor
  let initializer ← loopInitializer inner
  let condition ← expressionUnless inner .semicolon
  let _ ← expectSymbol .semicolon .semicolonAfterLoopCondition
  let increment ← expressionUnless inner .rightParen
  let _ ← expectSymbol .rightParen .parenAfterForClauses
  return Stmt.forLoop initializer condition increment (← inner.statement)

/-- The second branch of a conditional, if it has one.  An `else` belongs to the nearest `if`. -/
def elseBranch (inner : Enclosed) : Reading (Option Stmt) := do
  if ← acceptsKeyword .elseKw then
    return some (← inner.statement)
  else
    return none

/-- A conditional after its first word. -/
def conditional (inner : Enclosed) : Reading Stmt := do
  let _ ← expectSymbol .leftParen .parenAfterIf
  let condition ← inner.expression
  let _ ← expectSymbol .rightParen .parenAfterIfCondition
  let thenBranch ← inner.statement
  let elseBranch ← elseBranch inner
  return .conditional condition thenBranch elseBranch

/-- A loop after its first word. -/
def whileLoop (inner : Enclosed) : Reading Stmt := do
  let _ ← expectSymbol .leftParen .parenAfterWhile
  let condition ← inner.expression
  let _ ← expectSymbol .rightParen .parenAfterCondition
  return .whileLoop condition (← inner.statement)

/-- A `print` statement after its first word. -/
def print (inner : Enclosed) : Reading Stmt := do
  let value ← inner.expression
  let _ ← expectSymbol .semicolon .semicolonAfterPrint
  return .print value

/-- A `return` statement after its first word. -/
def returnValue (inner : Enclosed) (keyword : Token) : Reading Stmt := do
  let value ← expressionUnless inner .semicolon
  let _ ← expectSymbol .semicolon .semicolonAfterReturn
  return .returnValue keyword value

/-- Whether a token starts a statement or declaration for sure. -/
def startsStatement (token : Token) : Bool :=
  match token.kind with
  | .keyword keyword =>
      [.classKw, .funKw, .varKw, .forKw, .ifKw, .whileKw, .printKw, .returnKw].contains keyword
  | _ => false

/-- The tokens at which reading goes on after a fault.  One token is passed over in any case; then
reading goes on after a semicolon or in front of a token that starts a statement. -/
def resume : List Token → List Token
  | [] => []
  | token :: rest =>
      if token.isSymbol .semicolon then
        rest
      else
        match rest with
        | [] => []
        | next :: _ => if startsStatement next then rest else resume rest

/-- A declaration or statement; the fault that stops it stops the caller too. -/
def declarationOrFault (inner : Enclosed) : Reading Stmt := do
  if ← acceptsKeyword .classKw then
    classDeclaration inner
  else if ← acceptsKeyword .funKw then
    return .function (← function inner .function)
  else if ← acceptsKeyword .varKw then
    varDeclaration inner
  else
    inner.statement

/-- A declaration or statement; nothing if a fault stops it. -/
def declaration (inner : Enclosed) : Reading (Option Stmt) :=
  tryCatch (some <$> declarationOrFault inner) fun fault => do
    note fault
    modify fun cursor => { cursor with rest := resume cursor.rest }
    return none

/-- The declarations up to a place where they end, at most `limit`. -/
def declarations (inner : Enclosed) (ends : Reading Bool) : (limit : Nat) → Reading (List Stmt)
  | 0 => return []
  | limit + 1 => do
      if ← ends then
        return []
      else
        match ← declaration inner with
        | some statement => return statement :: (← declarations inner ends limit)
        | none => declarations inner ends limit

/-- The declarations of a block and its closing brace. -/
def block (inner : Enclosed) : Reading (List Stmt) := do
  let body ← declarations inner bodyEnds (← remaining)
  let _ ← expectSymbol .rightBrace .braceAfterBlock
  return body

/-- A statement, told apart by its first token. -/
def statement (inner : Enclosed) : Reading Stmt := do
  if ← acceptsKeyword .forKw then
    forLoop inner
  else if ← acceptsKeyword .ifKw then
    conditional inner
  else if ← acceptsKeyword .printKw then
    print inner
  else
    match ← accept? (·.isKeyword .returnKw) with
    | some keyword => returnValue inner keyword
    | none =>
        if ← acceptsKeyword .whileKw then
          whileLoop inner
        else if ← acceptsSymbol .leftBrace then
          return .block (← block inner)
        else
          expressionStatement inner

/-- The rules when `n` nestings may still be opened. -/
def statements : (n : Nat) → Enclosed
  | 0 => { toInner := .full, statement := stop .nesting, body := stop .nesting }
  | n + 1 =>
      let inner := statements n
      { toInner := inner.toInner.opened, statement := statement inner, body := block inner }

/-- Inside a statement and on its own an expression follows the same rules. -/
theorem statements_toInner (n : Nat) : (statements n).toInner = expressions n := by
  induction n with
  | zero => rfl
  | succ n ih => simp [statements, expressions, ih]

/-- All declarations up to the end. -/
def program : Reading (List Stmt) := do
  declarations (statements nestingLimit) atEnd (← remaining)

end Grammar

/-- Reads a program. -/
def Program.parse (tokens : List Token) (endLine : Nat) (nextId : NodeId) : Parsed Program :=
  .ofReading Grammar.program tokens endLine nextId

end LoxLang
