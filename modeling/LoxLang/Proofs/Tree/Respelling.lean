import Mathlib.Data.List.Basic
import LoxLang.Tree.Basic

/-!
# Respelled trees

The names of variables in another spelling: where a variable or a parameter is declared, and where
one is read or assigned to.  All else stays as it is, the names of functions, classes, methods and
properties among it.
-/

namespace LoxLang

/-- What different names stand for is found under other names that differ as well. -/
theorem lookup_map_of_injective {α β : Type} {rename : String → String}
    (h : Function.Injective rename) (change : α → β) (entries : List (String × α))
    (name : String) :
    (entries.map (Prod.map rename change)).lookup (rename name) =
      (entries.lookup name).map change := by
  induction entries with
  | nil => rfl
  | cons entry rest ih =>
      obtain ⟨key, a⟩ := entry
      rw [List.map_cons, Prod.map_apply, List.lookup_cons, List.lookup_cons, ih]
      by_cases hkey : name = key
      · rw [hkey, beq_self_eq_true, beq_self_eq_true]
        rfl
      · rw [beq_eq_false_iff_ne.2 hkey, beq_eq_false_iff_ne.2 (h.ne hkey)]

/-- A token with another text. -/
def Token.respell (spell : String → String) (token : Token) : Token :=
  { token with lexeme := spell token.lexeme }

/-- An occurrence of a name in another spelling. -/
def Occurrence.respell (spell : String → String) (occurrence : Occurrence) : Occurrence :=
  { occurrence with name := occurrence.name.respell spell }

mutual

/-- An expression whose variables are spelled in another way. -/
def Expr.respell (spell : String → String) : Expr → Expr
  | .literal value => .literal value
  | .grouping inner => .grouping (inner.respell spell)
  | .unary operator operand => .unary operator (operand.respell spell)
  | .binary operator left right => .binary operator (left.respell spell) (right.respell spell)
  | .logical operator left right => .logical operator (left.respell spell) (right.respell spell)
  | .variable occurrence => .variable (occurrence.respell spell)
  | .assign target value => .assign (target.respell spell) (value.respell spell)
  | .call callee paren arguments =>
      .call (callee.respell spell) paren (Expr.respellAll spell arguments)
  | .get object name => .get (object.respell spell) name
  | .set object name value => .set (object.respell spell) name (value.respell spell)
  | .thisRef occurrence => .thisRef occurrence
  | .superRef occurrence method => .superRef occurrence method

/-- Several expressions whose variables are spelled in another way. -/
def Expr.respellAll (spell : String → String) : List Expr → List Expr
  | [] => []
  | expression :: rest => expression.respell spell :: Expr.respellAll spell rest

end

mutual

/-- A statement whose variables are spelled in another way. -/
def Stmt.respell (spell : String → String) : Stmt → Stmt
  | .block body => .block (Stmt.respellAll spell body)
  | .classDecl name superclass methods =>
      .classDecl name (superclass.map (Occurrence.respell spell))
        (FunctionDecl.respellAll spell methods)
  | .expression value => .expression (value.respell spell)
  | .function declaration => .function (declaration.respell spell)
  | .conditional condition thenBranch elseBranch =>
      .conditional (condition.respell spell) (thenBranch.respell spell)
        (match elseBranch with
        | none => none
        | some elseBranch => some (elseBranch.respell spell))
  | .print value => .print (value.respell spell)
  | .returnValue keyword value => .returnValue keyword (value.map (Expr.respell spell))
  | .varDecl name initializer =>
      .varDecl (name.respell spell) (initializer.map (Expr.respell spell))
  | .whileLoop condition body => .whileLoop (condition.respell spell) (body.respell spell)

/-- Several statements whose variables are spelled in another way. -/
def Stmt.respellAll (spell : String → String) : List Stmt → List Stmt
  | [] => []
  | statement :: rest => statement.respell spell :: Stmt.respellAll spell rest

/-- A function whose parameters and variables are spelled in another way. -/
def FunctionDecl.respell (spell : String → String) : FunctionDecl → FunctionDecl
  | .mk name params body =>
      .mk name (params.map (Token.respell spell)) (Stmt.respellAll spell body)

/-- Several functions whose parameters and variables are spelled in another way. -/
def FunctionDecl.respellAll (spell : String → String) : List FunctionDecl → List FunctionDecl
  | [] => []
  | method :: rest => method.respell spell :: FunctionDecl.respellAll spell rest

end

/-- A program whose variables are spelled in another way. -/
def Program.respell (spell : String → String) (program : Program) : Program :=
  Stmt.respellAll spell program

section

variable (spell : String → String)

theorem Expr.respellAll_eq_map (expressions : List Expr) :
    Expr.respellAll spell expressions = expressions.map (Expr.respell spell) := by
  induction expressions with
  | nil => rfl
  | cons expression rest ih => rw [Expr.respellAll, ih, List.map_cons]

theorem Stmt.respellAll_eq_map (statements : List Stmt) :
    Stmt.respellAll spell statements = statements.map (Stmt.respell spell) := by
  induction statements with
  | nil => rfl
  | cons statement rest ih => rw [Stmt.respellAll, ih, List.map_cons]

theorem FunctionDecl.respellAll_eq_map (methods : List FunctionDecl) :
    FunctionDecl.respellAll spell methods = methods.map (FunctionDecl.respell spell) := by
  induction methods with
  | nil => rfl
  | cons method rest ih => rw [FunctionDecl.respellAll, ih, List.map_cons]

theorem Stmt.respell_conditional (condition : Expr) (thenBranch : Stmt)
    (elseBranch : Option Stmt) :
    (Stmt.conditional condition thenBranch elseBranch).respell spell =
      .conditional (condition.respell spell) (thenBranch.respell spell)
        (elseBranch.map (Stmt.respell spell)) := by
  cases elseBranch <;> rfl

namespace FunctionDecl

theorem name_respell (declaration : FunctionDecl) :
    (declaration.respell spell).name = declaration.name := by
  cases declaration
  rfl

theorem params_respell (declaration : FunctionDecl) :
    (declaration.respell spell).params = declaration.params.map (Token.respell spell) := by
  cases declaration
  rfl

theorem body_respell (declaration : FunctionDecl) :
    (declaration.respell spell).body = Stmt.respellAll spell declaration.body := by
  cases declaration
  rfl

end FunctionDecl

end

end LoxLang
