import LoxLang.Token.Basic

/-!
# Program trees

Expressions and statements.  A tree keeps the tokens that a diagnostic may have to point at.  Each
place that names a binding is an `Occurrence` with a number of its own, under which the distance to
the binding is recorded.
-/

namespace LoxLang

/-- The number of an occurrence. -/
abbrev NodeId := Nat

/-- A place in a program that names a binding: a variable, the target of an assignment, a
superclass, or the words `this` and `super`. -/
structure Occurrence where
  id : NodeId
  name : Token
deriving DecidableEq

/-- A constant written in a program. -/
inductive Literal where
  | nil
  | bool (value : Bool)
  | number (value : Float)
  | string (value : String)
deriving DecidableEq

/-- An expression. -/
inductive Expr where
  | literal (value : Literal)
  | grouping (inner : Expr)
  | unary (operator : Token) (operand : Expr)
  | binary (operator : Token) (left right : Expr)
  | logical (operator : Token) (left right : Expr)
  | variable (occurrence : Occurrence)
  | assign (target : Occurrence) (value : Expr)
  /-- A call, with its closing parenthesis. -/
  | call (callee : Expr) (paren : Token) (arguments : List Expr)
  | get (object : Expr) (name : Token)
  | set (object : Expr) (name : Token) (value : Expr)
  | thisRef (occurrence : Occurrence)
  | superRef (occurrence : Occurrence) (method : Token)

mutual

/-- A statement or declaration. -/
inductive Stmt where
  | block (body : List Stmt)
  | classDecl (name : Token) (superclass : Option Occurrence) (methods : List FunctionDecl)
  | expression (value : Expr)
  | function (declaration : FunctionDecl)
  | conditional (condition : Expr) (thenBranch : Stmt) (elseBranch : Option Stmt)
  | print (value : Expr)
  | returnValue (keyword : Token) (value : Option Expr)
  | varDecl (name : Token) (initializer : Option Expr)
  | whileLoop (condition : Expr) (body : Stmt)

/-- A function or method: its name, its parameters and its body. -/
inductive FunctionDecl where
  | mk (name : Token) (params : List Token) (body : List Stmt)

end

/-- A program is a list of statements. -/
abbrev Program := List Stmt

namespace FunctionDecl

def name : FunctionDecl → Token
  | mk name _ _ => name

def params : FunctionDecl → List Token
  | mk _ params _ => params

def body : FunctionDecl → List Stmt
  | mk _ _ body => body

/-- The name under which a class has its initializer. -/
def initializerName : String := "init"

/-- Whether a method is the initializer of its class. -/
def isInitializer (declaration : FunctionDecl) : Bool :=
  declaration.name.lexeme == initializerName

end FunctionDecl

/-- A counting loop in terms of the other statements.  The initializer has a scope of its own around
the loop, and the increment runs after the body in each turn.  A missing condition always holds. -/
def Stmt.forLoop (initializer : Option Stmt) (condition increment : Option Expr) (body : Stmt) :
    Stmt :=
  let turn :=
    match increment with
    | some increment => .block [body, .expression increment]
    | none => body
  let loop := Stmt.whileLoop (condition.getD (.literal (.bool true))) turn
  match initializer with
  | some initializer => .block [initializer, loop]
  | none => loop

end LoxLang
