import LoxLang.Resolution

/-!
# Places in a program

Where a statement or an expression stands: inside which blocks, functions and classes, and behind
which declarations.  `Located` finds the places of a program from the outside in, along nothing but
the tree.  It is the measure of what resolution says about a program and of what a run does in it.
-/

namespace LoxLang

/-! ## Parts of trees -/

/-- The expressions that an expression is made of. -/
def Expr.operands : Expr → List Expr
  | .literal _ => []
  | .grouping inner => [inner]
  | .unary _ operand => [operand]
  | .binary _ left right => [left, right]
  | .logical _ left right => [left, right]
  | .variable _ => []
  | .assign _ value => [value]
  | .call callee _ arguments => callee :: arguments
  | .get object _ => [object]
  | .set object _ value => [object, value]
  | .thisRef _ => []
  | .superRef _ _ => []

/-- An expression that stands somewhere inside another one, or is the other one. -/
inductive Expr.Inside : Expr → Expr → Prop
  | refl {expression : Expr} : Inside expression expression
  | operand {inner operand expression : Expr} :
      operand ∈ expression.operands → Inside inner operand → Inside inner expression

theorem Expr.Inside.trans {inner middle expression : Expr} (h : inner.Inside middle)
    (h' : middle.Inside expression) : inner.Inside expression := by
  induction h' with
  | refl => exact h
  | operand hoperand _ ih => exact .operand hoperand ih

namespace Stmt

/-- The expressions that a statement is made of, apart from those in other statements. -/
def expressions : Stmt → List Expr
  | .expression value => [value]
  | .conditional condition _ _ => [condition]
  | .print value => [value]
  | .returnValue _ value => value.toList
  | .varDecl _ initializer => initializer.toList
  | .whileLoop condition _ => [condition]
  | _ => []

/-- The statements that a statement is made of, in whose place no scope is opened. -/
def branches : Stmt → List Stmt
  | .conditional _ thenBranch elseBranch => thenBranch :: elseBranch.toList
  | .whileLoop _ body => [body]
  | _ => []

/-- The name that a declaration declares. -/
def declared? : Stmt → Option String
  | .varDecl name _ => some name.lexeme
  | .function declaration => some declaration.name.lexeme
  | .classDecl name _ _ => some name.lexeme
  | _ => none

end Stmt

/-! ## Enclosures -/

/-- What opens a scope. -/
inductive Construct where
  | block (body : List Stmt)
  | function (declaration : FunctionDecl)
  | method (declaration : FunctionDecl)
  /-- The body of a class, in which `this` is bound. -/
  | classBody (name : Token) (superclass : Option Occurrence) (methods : List FunctionDecl)
  /-- The superclass clause of a class, by which `super` is bound around the body. -/
  | inheritance (name : Token) (superclass : Occurrence) (methods : List FunctionDecl)

namespace Construct

/-- The names that are declared in the scope, parameters first. -/
def declarations : Construct → List String
  | block body => body.filterMap Stmt.declared?
  | function declaration =>
      declaration.params.map Token.lexeme ++ declaration.body.filterMap Stmt.declared?
  | method declaration =>
      declaration.params.map Token.lexeme ++ declaration.body.filterMap Stmt.declared?
  | classBody _ _ _ => []
  | inheritance _ _ _ => []

/-- Whether the scope is that of a call. -/
def isFunction : Construct → Bool
  | function _ => true
  | method _ => true
  | _ => false

/-- Whether the scope is that of the body of a class. -/
def isClass : Construct → Bool
  | classBody _ _ _ => true
  | _ => false

end Construct

/-- A construct around a place, and the names that have been declared in its scope in front of the
place, the latest first. -/
structure Enclosure where
  construct : Construct
  declared : List String

/-- A construct at whose start a place is. -/
def Construct.opened (construct : Construct) : Enclosure where
  construct := construct
  declared :=
    match construct with
    | .block _ => []
    | .function declaration => (declaration.params.map Token.lexeme).reverse
    | .method declaration => (declaration.params.map Token.lexeme).reverse
    | .classBody _ _ _ => [thisName]
    | .inheritance _ _ _ => [superName]

/-- The constructs around a place, the innermost first. -/
abbrev Path := List Enclosure

namespace Path

/-- A place behind the declaration of a name. -/
def enter (path : Path) (name : String) : Path :=
  match path with
  | [] => []
  | enclosure :: outer => { enclosure with declared := name :: enclosure.declared } :: outer

/-- The place behind a statement. -/
def after (path : Path) (statement : Stmt) : Path :=
  match statement.declared? with
  | some name => path.enter name
  | none => path

/-- The place in the superclass clause of a class, or in its head if there is no such clause.  The
name of the class has been declared. -/
def inHead (path : Path) (name : Token) (superclass : Option Occurrence)
    (methods : List FunctionDecl) : Path :=
  match superclass with
  | none => path.enter name.lexeme
  | some superclass =>
      (Construct.inheritance name superclass methods).opened :: path.enter name.lexeme

/-- The place in the body of a class. -/
def inClass (path : Path) (name : Token) (superclass : Option Occurrence)
    (methods : List FunctionDecl) : Path :=
  (Construct.classBody name superclass methods).opened :: path.inHead name superclass methods

/-- The function or method nearest around a place. -/
def function? (path : Path) : Option Construct :=
  (path.map Enclosure.construct).find? Construct.isFunction

/-- The class nearest around a place. -/
def class? (path : Path) : Option Construct :=
  (path.map Enclosure.construct).find? Construct.isClass

end Path

/-! ## Places -/

/-- What can stand at a place. -/
inductive Part where
  | expression (expression : Expr)
  | statement (statement : Stmt)
  /-- The rest of a list of statements. -/
  | statements (rest : List Stmt)

/-- A part of a program, and the constructs around it. -/
inductive Located (program : Program) : Path → Part → Prop
  | program : Located program [] (.statements program)
  | first {path : Path} {statement : Stmt} {rest : List Stmt} :
      Located program path (.statements (statement :: rest)) →
      Located program path (.statement statement)
  | rest {path : Path} {statement : Stmt} {rest : List Stmt} :
      Located program path (.statements (statement :: rest)) →
      Located program (path.after statement) (.statements rest)
  | block {path : Path} {body : List Stmt} :
      Located program path (.statement (.block body)) →
      Located program ((Construct.block body).opened :: path) (.statements body)
  | function {path : Path} {declaration : FunctionDecl} :
      Located program path (.statement (.function declaration)) →
      Located program
        ((Construct.function declaration).opened :: path.enter declaration.name.lexeme)
        (.statements declaration.body)
  | method {path : Path} {name : Token} {superclass : Option Occurrence}
      {methods : List FunctionDecl} {method : FunctionDecl} :
      Located program path (.statement (.classDecl name superclass methods)) →
      method ∈ methods →
      Located program ((Construct.method method).opened :: path.inClass name superclass methods)
        (.statements method.body)
  | branch {path : Path} {statement branch : Stmt} :
      Located program path (.statement statement) → branch ∈ statement.branches →
      Located program path (.statement branch)
  | expression {path : Path} {statement : Stmt} {expression : Expr} :
      Located program path (.statement statement) → expression ∈ statement.expressions →
      Located program path (.expression expression)
  | operand {path : Path} {expression operand : Expr} :
      Located program path (.expression expression) → operand ∈ expression.operands →
      Located program path (.expression operand)

theorem Located.inside {program : Program} {path : Path} {inner expression : Expr}
    (h : Located program path (.expression expression)) (hinside : inner.Inside expression) :
    Located program path (.expression inner) := by
  induction hinside with
  | refl => exact h
  | operand hoperand _ ih => exact ih (h.operand hoperand)

end LoxLang
