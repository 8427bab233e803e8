import LoxLang.Proofs.Grammar.Phrase

/-!
# Reading by index

The rules of the grammar once more, for a walker that keeps all tokens and the index of the next
one, and counts how deep it is nested.  A look outside the list of tokens breaks the walk off, and
so does a loop or a recursion that takes longer than it was given.  The end of the text counts as a
last token.

Besides, the walker writes down where it has been, how far each declaration has taken it, and every
call of a rule that is over, with the depth at which the rule was entered and left.  What is written
down has no influence on the way.  A repetition is a loop and not a call, and what looks at the next
token or goes past it calls no rule.
-/

namespace LoxLang

/-- Why a walk is broken off. -/
inductive Break where
  /-- A look outside the list of tokens. -/
  | outside
  /-- A loop or recursion took longer than it was given. -/
  | endless
  | fault (fault : SyntaxFault)

/-- What opens a nesting. -/
inductive Nesting where
  | statement
  | body
  | expression
  | assigned
  | operand

/-- The rules that can be called.  The rule `nested` opens a nesting, unless too many are open, and
calls the rule for what stands inside. -/
inductive Rule where
  | program
  | wholeExpression
  | declaration
  | classDeclaration
  | function
  | varDeclaration
  | statement
  | statementKind
  | forLoop
  | conditional
  | print
  | returnValue
  | whileLoop
  | expressionStatement
  | block
  | expression
  | assignment
  | tier (tier : Grammar.Tier)
  | unary
  | call
  | finishCall
  | primary
  | nested (nesting : Nesting)

/-- A call of a rule that is over, with the calls it stood in, the innermost first. -/
structure Visit where
  rule : Rule
  callers : List Rule
  /-- The depth when the rule was called. -/
  entered : Nat
  /-- The depth when the rule was left, with a result or with a fault. -/
  left : Nat
  /-- The fault with which the rule was refused to open a nesting, if it was. -/
  refusal : Option SyntaxFault

/-- A walker over a list of tokens. -/
structure Walker where
  tokens : List Token
  /-- The line on which the text ends. -/
  endLine : Nat
  /-- The index of the next token. -/
  current : Nat
  /-- How many nestings are open. -/
  depth : Nat
  /-- The faults noted so far, the latest first. -/
  errors : List SyntaxFault
  /-- The number of the next occurrence. -/
  nextId : NodeId
  /-- The indices at which the walker has stood, the latest first. -/
  trail : List Nat
  /-- Where the declarations that are over started and ended, the latest first. -/
  declarations : List (Nat × Nat)
  /-- The calls in which the walker stands, the innermost first. -/
  calls : List Rule
  /-- The calls that are over, the latest first. -/
  visits : List Visit

namespace Walker

/-- One nesting deeper. -/
def deeper (walker : Walker) : Walker :=
  { walker with depth := walker.depth + 1 }

/-- One nesting less deep. -/
def higher (walker : Walker) : Walker :=
  { walker with depth := walker.depth - 1 }

/-- Inside the call of a rule. -/
def calling (walker : Walker) (rule : Rule) : Walker :=
  { walker with calls := rule :: walker.calls }

/-- Behind a call that a caller has made, which may have been refused to open a nesting. -/
def leaving (walker : Walker) (rule : Rule) (caller : Walker) (refusal : Option SyntaxFault) :
    Walker :=
  { walker with
    calls := caller.calls
    visits := ⟨rule, caller.calls, caller.depth, walker.depth, refusal⟩ :: walker.visits }

end Walker

/-- A rule of the grammar for a walker. -/
abbrev Walk := ExceptT Break (StateM Walker)

namespace Walk

variable {α : Type}

/-! ## Steps -/

/-- The token with an index, and nothing for the end of the text. -/
def tokenAt (index : Nat) : Walk (Option Token) := do
  let walker ← get
  if index ≤ walker.tokens.length then
    return walker.tokens[index]?
  else
    throw .outside

/-- The next token. -/
def peek : Walk (Option Token) := do
  tokenAt (← get).current

/-- The token in front of the next one. -/
def previous : Walk (Option Token) := do
  match (← get).current with
  | 0 => throw .outside
  | index + 1 => tokenAt index

/-- Whether only the end of the text is left. -/
def isAtEnd : Walk Bool :=
  return (← peek).isNone

/-- Whether the next token passes a test. -/
def check (test : Token → Bool) : Walk Bool := do
  if ← isAtEnd then
    return false
  else
    return (← peek).any test

/-- Goes one token further, unless at the end. -/
def advance : Walk (Option Token) := do
  if ← isAtEnd then
    previous
  else
    modify fun walker => { walker with
      current := walker.current + 1
      trail := (walker.current + 1) :: walker.trail }
    previous

/-- Goes past the next token if it passes a test. -/
def accept? (test : Token → Bool) : Walk (Option Token) := do
  if ← check test then
    advance
  else
    return none

/-- Whether the next token passes a test; if so the walker goes past it. -/
def accepts (test : Token → Bool) : Walk Bool :=
  return (← accept? test).isSome

/-- The place of the next token. -/
def place : Walk Place := do
  match ← peek with
  | some token => return .token token
  | none => return .textEnd (← get).endLine

/-- Stops at the next token. -/
def stop (cause : SyntaxCause) : Walk α := do
  throw (.fault ⟨cause, ← place⟩)

/-- Notes a fault and goes on. -/
def note (fault : SyntaxFault) : Walk Unit :=
  modify fun walker => { walker with errors := fault :: walker.errors }

/-- Notes a fault at the next token and goes on. -/
def noteHere (cause : SyntaxCause) : Walk Unit := do
  note ⟨cause, ← place⟩

/-- Goes past the next token, which has to pass a test. -/
def expect (test : Token → Bool) (cause : SyntaxCause) : Walk Token := do
  match ← accept? test with
  | some token => return token
  | none => stop cause

/-- Gives a number to an occurrence of a name. -/
def occurrence (name : Token) : Walk Occurrence := do
  let walker ← get
  set { walker with nextId := walker.nextId + 1 }
  return ⟨walker.nextId, name⟩

/-- How often a loop is gone through at most. -/
def rounds : Walk Nat :=
  return (← get).tokens.length + 1

/-! ## Calls -/

/-- Calls a rule. -/
def within (rule : Rule) (walk : Walk α) : Walk α := do
  let caller ← get
  set (caller.calling rule)
  let a ← tryCatch walk fun reason => do
    modify fun walker => walker.leaving rule caller none
    throw reason
  modify fun walker => walker.leaving rule caller none
  return a

/-- Follows a rule one nesting deeper. -/
def deepened (walk : Walk α) : Walk α := do
  modify Walker.deeper
  let a ← tryCatch walk fun reason => do
    modify Walker.higher
    throw reason
  modify Walker.higher
  return a

/-- Calls the rule that opens a nesting, which is refused if too many are open. -/
def nested (nesting : Nesting) (walk : Walk α) : Walk α := do
  let caller ← get
  if nestingLimit ≤ caller.depth then
    let fault : SyntaxFault := ⟨.nesting, ← place⟩
    modify fun walker => walker.leaving (.nested nesting) caller (some fault)
    throw (.fault fault)
  else
    within (.nested nesting) (deepened walk)

/-! ## Items with commas in between -/

/-- Items from the one after the first `count` on. -/
def itemsFrom (item : Walk α) (excess : SyntaxCause) : (limit count : Nat) → Walk (List α)
  | 0, _ => throw .endless
  | limit + 1, count => do
      if argumentLimit ≤ count then
        noteHere excess
      let first ← item
      if ← accepts (·.isSymbol .comma) then
        return first :: (← itemsFrom item excess limit (count + 1))
      else
        return [first]

/-- Items, if a closing parenthesis does not stand in their place. -/
def items (item : Walk α) (excess : SyntaxCause) : Walk (List α) := do
  if ← check (·.isSymbol .rightParen) then
    return []
  else
    itemsFrom item excess (← rounds) 0

/-! ## Expressions -/

/-- What opens a nesting inside an expression. -/
structure Inner where
  expression : Walk Expr
  assigned : Walk Expr
  operand : Walk Expr

open Grammar (Level Tier literal? startsStatement)

/-- The operators and operands that follow a first operand. -/
def operations (level : Level) (next : Walk Expr) : (limit : Nat) → Expr → Walk Expr
  | 0, _ => throw .endless
  | limit + 1, left => do
      match ← accept? level.has with
      | none => return left
      | some operator =>
          let right ← next
          operations level next limit (level.node operator left right)

/-- The operators of a tier and their operands. -/
def chain (tier : Tier) (next : Walk Expr) : Walk Expr :=
  within (.tier tier) do
    let first ← next
    operations tier.level next (← rounds) first

/-- The arguments of a call and its closing parenthesis. -/
def finishCall (inner : Inner) (callee : Expr) : Walk Expr :=
  within .finishCall do
    let arguments ← items inner.expression .tooManyArguments
    let paren ← expect (·.isSymbol .rightParen) .parenAfterArguments
    return .call callee paren arguments

/-- A constant, a name, `this`, a method of the superclass, or an expression in parentheses. -/
def primary (inner : Inner) : Walk Expr :=
  within .primary do
    match ← accept? fun token => (literal? token.kind).isSome with
    | some token => return .literal ((literal? token.kind).getD .nil)
    | none =>
    match ← accept? (·.isKeyword .superKw) with
    | some keyword =>
        let _ ← expect (·.isSymbol .dot) .dotAfterSuper
        let method ← expect Token.isIdentifier .superclassMethodName
        return .superRef (← occurrence keyword) method
    | none =>
    match ← accept? (·.isKeyword .thisKw) with
    | some keyword => return .thisRef (← occurrence keyword)
    | none =>
    match ← accept? Token.isIdentifier with
    | some name => return .variable (← occurrence name)
    | none =>
    if ← accepts (·.isSymbol .leftParen) then
      let expression ← inner.expression
      let _ ← expect (·.isSymbol .rightParen) .parenAfterExpression
      return .grouping expression
    else
      stop .expression

/-- The calls and properties that follow a first expression. -/
def selections (inner : Inner) : (limit : Nat) → Expr → Walk Expr
  | 0, _ => throw .endless
  | limit + 1, subject => do
      if ← accepts (·.isSymbol .leftParen) then
        selections inner limit (← finishCall inner subject)
      else if ← accepts (·.isSymbol .dot) then
        let name ← expect Token.isIdentifier .propertyName
        selections inner limit (.get subject name)
      else
        return subject

/-- A primary expression with the calls and properties after it. -/
def call (inner : Inner) : Walk Expr :=
  within .call do
    let subject ← primary inner
    selections inner (← rounds) subject

/-- A unary operator with its operand, or a call. -/
def unary (inner : Inner) : Walk Expr :=
  within .unary do
    match ← accept? fun token => token.isSymbol .bang || token.isSymbol .minus with
    | some operator => return .unary operator (← inner.operand)
    | none => call inner

/-- The tiers of binary operators. -/
def disjunction (inner : Inner) : Walk Expr :=
  chain .disjunction <| chain .conjunction <| chain .equality <| chain .comparison <|
    chain .term <| chain .factor <| unary inner

/-- The assignment of a value to what stands left of the equals sign. -/
def assignTo (target : Expr) (equal : Token) (value : Expr) : Walk Expr :=
  match target with
  | .variable place => return .assign (← occurrence place.name) value
  | .get object name => return .set object name value
  | _ => do
      note ⟨.assignmentTarget, .token equal⟩
      return target

/-- An assignment, or an expression without one. -/
def assignment (inner : Inner) : Walk Expr :=
  within .assignment do
    let target ← disjunction inner
    match ← accept? (·.isSymbol .equal) with
    | none => return target
    | some equal => assignTo target equal (← inner.assigned)

/-! ## Declarations and statements -/

/-- What opens a nesting inside a statement. -/
structure Enclosed extends Inner where
  statement : Walk Stmt
  body : Walk (List Stmt)

/-- A function or method from its name on. -/
def function (inner : Enclosed) (sort : FunctionSort) : Walk FunctionDecl :=
  within .function do
    let name ← expect Token.isIdentifier (.functionName sort)
    let _ ← expect (·.isSymbol .leftParen) (.parenAfterFunctionName sort)
    let params ← items (expect Token.isIdentifier .parameterName) .tooManyParameters
    let _ ← expect (·.isSymbol .rightParen) .parenAfterParameters
    let _ ← expect (·.isSymbol .leftBrace) (.braceBeforeFunctionBody sort)
    return .mk name params (← inner.body)

/-- Whether a list of declarations or methods ends here. -/
def bodyEnds : Walk Bool :=
  return (← check (·.isSymbol .rightBrace)) || (← isAtEnd)

/-- The methods of a class. -/
def methods (inner : Enclosed) : (limit : Nat) → Walk (List FunctionDecl)
  | 0 => throw .endless
  | limit + 1 => do
      if ← bodyEnds then
        return []
      else
        let method ← function inner .method
        return method :: (← methods inner limit)

/-- The superclass clause of a class, if it has one. -/
def inheritance : Walk (Option Occurrence) := do
  if ← accepts (·.isSymbol .less) then
    return some (← occurrence (← expect Token.isIdentifier .superclassName))
  else
    return none

/-- A class from its name on. -/
def classDeclaration (inner : Enclosed) : Walk Stmt :=
  within .classDeclaration do
    let name ← expect Token.isIdentifier .className
    let superclass ← inheritance
    let _ ← expect (·.isSymbol .leftBrace) .braceBeforeClassBody
    let methods ← methods inner (← rounds)
    let _ ← expect (·.isSymbol .rightBrace) .braceAfterClassBody
    return .classDecl name superclass methods

/-- The value that a variable declaration gives its variable, if it gives one. -/
def variableValue (inner : Enclosed) : Walk (Option Expr) := do
  if ← accepts (·.isSymbol .equal) then
    return some (← inner.expression)
  else
    return none

/-- A variable declaration from its name on. -/
def varDeclaration (inner : Enclosed) : Walk Stmt :=
  within .varDeclaration do
    let name ← expect Token.isIdentifier .variableName
    let initializer ← variableValue inner
    let _ ← expect (·.isSymbol .semicolon) .semicolonAfterVariable
    return .varDecl name initializer

/-- An expression followed by a semicolon. -/
def expressionStatement (inner : Enclosed) : Walk Stmt :=
  within .expressionStatement do
    let value ← inner.expression
    let _ ← expect (·.isSymbol .semicolon) .semicolonAfterExpression
    return .expression value

/-- An expression, unless a given symbol stands in its place. -/
def expressionUnless (inner : Enclosed) (symbol : Symbol) : Walk (Option Expr) := do
  if ← check (·.isSymbol symbol) then
    return none
  else
    return some (← inner.expression)

/-- What a counting loop does first, with the semicolon behind it. -/
def loopInitializer (inner : Enclosed) : Walk (Option Stmt) := do
  if ← accepts (·.isSymbol .semicolon) then
    return none
  else if ← accepts (·.isKeyword .varKw) then
    return some (← varDeclaration inner)
  else
    return some (← expressionStatement inner)

/-- A counting loop after its first word. -/
def forLoop (inner : Enclosed) : Walk Stmt :=
  within .forLoop do
    let _ ← expect (·.isSymbol .leftParen) .parenAfterFor
    let initializer ← loopInitializer inner
    let condition ← expressionUnless inner .semicolon
    let _ ← expect (·.isSymbol .semicolon) .semicolonAfterLoopCondition
    let increment ← expressionUnless inner .rightParen
    let _ ← expect (·.isSymbol .rightParen) .parenAfterForClauses
    return Stmt.forLoop initializer condition increment (← inner.statement)

/-- The second branch of a conditional, if it has one. -/
def elseBranch (inner : Enclosed) : Walk (Option Stmt) := do
  if ← accepts (·.isKeyword .elseKw) then
    return some (← inner.statement)
  else
    return none

/-- A conditional after its first word. -/
def conditional (inner : Enclosed) : Walk Stmt :=
  within .conditional do
    let _ ← expect (·.isSymbol .leftParen) .parenAfterIf
    let condition ← inner.expression
    let _ ← expect (·.isSymbol .rightParen) .parenAfterIfCondition
    let thenBranch ← inner.statement
    let elseBranch ← elseBranch inner
    return .conditional condition thenBranch elseBranch

/-- A loop after its first word. -/
def whileLoop (inner : Enclosed) : Walk Stmt :=
  within .whileLoop do
    let _ ← expect (·.isSymbol .leftParen) .parenAfterWhile
    let condition ← inner.expression
    let _ ← expect (·.isSymbol .rightParen) .parenAfterCondition
    return .whileLoop condition (← inner.statement)

/-- A `print` statement after its first word. -/
def print (inner : Enclosed) : Walk Stmt :=
  within .print do
    let value ← inner.expression
    let _ ← expect (·.isSymbol .semicolon) .semicolonAfterPrint
    return .print value

/-- A `return` statement after its first word. -/
def returnValue (inner : Enclosed) (keyword : Token) : Walk Stmt :=
  within .returnValue do
    let value ← expressionUnless inner .semicolon
    let _ ← expect (·.isSymbol .semicolon) .semicolonAfterReturn
    return .returnValue keyword value

/-- A declaration or statement; the fault that stops it stops the caller too. -/
def declarationOrFault (inner : Enclosed) : Walk Stmt := do
  if ← accepts (·.isKeyword .classKw) then
    classDeclaration inner
  else if ← accepts (·.isKeyword .funKw) then
    return .function (← function inner .function)
  else if ← accepts (·.isKeyword .varKw) then
    varDeclaration inner
  else
    inner.statement

/-- Goes on to a place where a statement may start. -/
def skip : (limit : Nat) → Walk Unit
  | 0 => throw .endless
  | limit + 1 => do
      if ← isAtEnd then
        return
      else if (← previous).any (·.isSymbol .semicolon) then
        return
      else if (← peek).any startsStatement then
        return
      else
        let _ ← advance
        skip limit

/-- Goes past the next token, and on to a place where a statement may start. -/
def synchronize : Walk Unit := do
  let _ ← advance
  skip (← rounds)

/-- A declaration or statement; nothing if a fault stops it. -/
def declaration (inner : Enclosed) : Walk (Option Stmt) :=
  within .declaration do
    let start := (← get).current
    let found ← tryCatch (some <$> declarationOrFault inner) fun
      | .fault fault => do
          note fault
          synchronize
          return none
      | reason => throw reason
    modify fun walker => { walker with
      declarations := (start, walker.current) :: walker.declarations }
    return found

/-- The declarations up to a place where they end. -/
def declarations (inner : Enclosed) (ends : Walk Bool) : (limit : Nat) → Walk (List Stmt)
  | 0 => throw .endless
  | limit + 1 => do
      if ← ends then
        return []
      else
        match ← declaration inner with
        | some statement => return statement :: (← declarations inner ends limit)
        | none => declarations inner ends limit

/-- The declarations of a block and its closing brace. -/
def block (inner : Enclosed) : Walk (List Stmt) :=
  within .block do
    let body ← declarations inner bodyEnds (← rounds)
    let _ ← expect (·.isSymbol .rightBrace) .braceAfterBlock
    return body

/-- A statement, told apart by its first token. -/
def statementKind (inner : Enclosed) : Walk Stmt :=
  within .statementKind do
    if ← accepts (·.isKeyword .forKw) then
      forLoop inner
    else if ← accepts (·.isKeyword .ifKw) then
      conditional inner
    else if ← accepts (·.isKeyword .printKw) then
      print inner
    else
      match ← accept? (·.isKeyword .returnKw) with
      | some keyword => returnValue inner keyword
      | none =>
          if ← accepts (·.isKeyword .whileKw) then
            whileLoop inner
          else if ← accepts (·.isSymbol .leftBrace) then
            return .block (← block inner)
          else
            expressionStatement inner

/-- What opens a nesting, with a recursion of at most `fuel` nestings inside one another. -/
def enclosed : (fuel : Nat) → Enclosed
  | 0 =>
      { expression := throw .endless
        assigned := throw .endless
        operand := throw .endless
        statement := throw .endless
        body := throw .endless }
  | fuel + 1 =>
      let inner := enclosed fuel
      { expression := within .expression (nested .expression (assignment inner.toInner))
        assigned := nested .assigned (assignment inner.toInner)
        operand := nested .operand (unary inner.toInner)
        statement := within .statement (nested .statement (statementKind inner))
        body := nested .body (block inner) }

/-- The rules, with a recursion that is one nesting deeper than phrases may be nested. -/
def outermost : Enclosed :=
  enclosed (nestingLimit + 1)

/-- All declarations up to the end. -/
def program : Walk (List Stmt) :=
  within .program do
    declarations outermost isAtEnd (← rounds)

/-- A single expression that takes up all tokens. -/
def wholeExpression : Walk Expr :=
  within .wholeExpression do
    let expression ← outermost.expression
    if ← isAtEnd then
      return expression
    else
      stop .endOfExpression

/-! ## Whole texts -/

/-- What a rule makes of a walker. -/
def exec (walk : Walk α) (walker : Walker) : Except Break α × Walker :=
  walk.run.run walker

/-- The walker in front of the first token. -/
def start (tokens : List Token) (endLine : Nat) (nextId : NodeId) : Walker where
  tokens := tokens
  endLine := endLine
  current := 0
  depth := 0
  errors := []
  nextId := nextId
  trail := [0]
  declarations := []
  calls := []
  visits := []

/-- Runs a rule over a whole list of tokens.  A noted fault spoils the tree. -/
def parse (walk : Walk α) (tokens : List Token) (endLine : Nat) (nextId : NodeId) :
    Except Break (Parsed α) × Walker :=
  match exec walk (start tokens endLine nextId) with
  | (.ok tree, walker) =>
      if walker.errors.isEmpty then
        (.ok ⟨.ok tree, walker.nextId⟩, walker)
      else
        (.ok ⟨.error walker.errors.reverse, walker.nextId⟩, walker)
  | (.error (.fault fault), walker) =>
      (.ok ⟨.error (fault :: walker.errors).reverse, walker.nextId⟩, walker)
  | (.error reason, walker) => (.error reason, walker)

/-- The calls made when a rule is followed over a whole list of tokens, the latest to end first. -/
def visits (walk : Walk α) (tokens : List Token) (endLine : Nat) (nextId : NodeId) : List Visit :=
  (exec walk (start tokens endLine nextId)).2.visits

end Walk

end LoxLang
