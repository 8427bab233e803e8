import LoxLang.Proofs.Scope.Place

/-!
# Well-formed trees

What the grammar says about single nodes of a tree: operators are those that there are for so many
operands, names are identifiers, `this` and `super` are the reserved words, and no declaration
stands as the branch of a conditional or the body of a loop.  Where the tokens come from is left
open; a tree is formed from genuine ones.
-/

namespace LoxLang

/-- An identifier among the genuine tokens. -/
def Token.Names (genuine : Token → Prop) (token : Token) : Prop :=
  token.isIdentifier ∧ genuine token

namespace Kind

/-- The operators with one operand. -/
def unaryOperators : List Kind :=
  [.symbol .bang, .symbol .minus]

/-- The operators with two operands, both of which are evaluated. -/
def binaryOperators : List Kind :=
  [.symbol .bangEqual, .symbol .equalEqual, .symbol .greater, .symbol .greaterEqual, .symbol .less,
    .symbol .lessEqual, .symbol .minus, .symbol .plus, .symbol .slash, .symbol .star]

end Kind

/-- The tokens that an expression has for operators, names and words are what they should be. -/
def Expr.Spells (genuine : Token → Prop) : Expr → Prop
  | .unary operator _ => operator.kind ∈ Kind.unaryOperators
  | .binary operator _ _ => operator.kind ∈ Kind.binaryOperators
  | .variable occurrence => occurrence.name.Names genuine
  | .assign target _ => target.name.Names genuine
  | .thisRef occurrence => occurrence.name.isKeyword .thisKw ∧ genuine occurrence.name
  | .superRef occurrence _ => occurrence.name.isKeyword .superKw ∧ genuine occurrence.name
  | _ => True

/-- An expression all of whose parts have the right tokens. -/
inductive Expr.Formed (genuine : Token → Prop) : Expr → Prop
  | mk {expression : Expr} :
      expression.Spells genuine → (∀ operand ∈ expression.operands, Formed genuine operand) →
      Formed genuine expression

/-- The parameters of a function are names. -/
def FunctionDecl.Spells (genuine : Token → Prop) (declaration : FunctionDecl) : Prop :=
  ∀ param ∈ declaration.params, param.Names genuine

namespace Stmt

/-- The tokens that a statement has for names are names. -/
def Spells (genuine : Token → Prop) : Stmt → Prop
  | .varDecl name _ => name.Names genuine
  | .function declaration => declaration.name.Names genuine ∧ declaration.Spells genuine
  | .classDecl name superclass methods =>
      name.Names genuine ∧ (∀ occurrence ∈ superclass, occurrence.name.Names genuine) ∧
        ∀ method ∈ methods, method.Spells genuine
  | _ => True

/-- The statements inside the scopes that a statement opens. -/
def enclosed : Stmt → List Stmt
  | .block body => body
  | .function declaration => declaration.body
  | .classDecl _ _ methods => methods.flatMap FunctionDecl.body
  | _ => []

/-- A statement all of whose parts have the right tokens, and whose branches declare nothing. -/
inductive Formed (genuine : Token → Prop) : Stmt → Prop
  | mk {statement : Stmt} :
      statement.Spells genuine →
      (∀ expression ∈ statement.expressions, expression.Formed genuine) →
      (∀ branch ∈ statement.branches, branch.declared? = none) →
      (∀ branch ∈ statement.branches, Formed genuine branch) →
      (∀ inner ∈ statement.enclosed, Formed genuine inner) → Formed genuine statement

end Stmt

variable {genuine : Token → Prop}

namespace Expr.Formed

variable {expression : Expr}

theorem spells (h : expression.Formed genuine) : expression.Spells genuine := by
  cases h with
  | mk hspells _ => exact hspells

theorem operand {operand : Expr} (h : expression.Formed genuine)
    (hoperand : operand ∈ expression.operands) : operand.Formed genuine := by
  cases h with
  | mk _ hoperands => exact hoperands _ hoperand

end Expr.Formed

namespace Stmt.Formed

variable {statement : Stmt}

theorem spells (h : statement.Formed genuine) : statement.Spells genuine := by
  cases h with
  | mk hspells _ _ _ _ => exact hspells

theorem expression {expression : Expr} (h : statement.Formed genuine)
    (hexpression : expression ∈ statement.expressions) : expression.Formed genuine := by
  cases h with
  | mk _ hexpressions _ _ _ => exact hexpressions _ hexpression

theorem declared?_branch {branch : Stmt} (h : statement.Formed genuine)
    (hbranch : branch ∈ statement.branches) : branch.declared? = none := by
  cases h with
  | mk _ _ hdeclared _ _ => exact hdeclared _ hbranch

theorem branch {branch : Stmt} (h : statement.Formed genuine)
    (hbranch : branch ∈ statement.branches) : branch.Formed genuine := by
  cases h with
  | mk _ _ _ hbranches _ => exact hbranches _ hbranch

theorem enclosed {inner : Stmt} (h : statement.Formed genuine)
    (hinner : inner ∈ statement.enclosed) : inner.Formed genuine := by
  cases h with
  | mk _ _ _ _ henclosed => exact henclosed _ hinner

end Stmt.Formed

/-- A program all of whose statements are formed. -/
def Program.Formed (genuine : Token → Prop) (program : Program) : Prop :=
  ∀ statement ∈ program, statement.Formed genuine

/-- A formed part of a program. -/
def Part.Formed (genuine : Token → Prop) : Part → Prop
  | .expression value => value.Formed genuine
  | .statement single => single.Formed genuine
  | .statements rest => ∀ statement ∈ rest, statement.Formed genuine

/-- All parts of a formed program are formed. -/
theorem Located.formed {program : Program} {path : Path} {part : Part}
    (h : Located program path part) (hprogram : program.Formed genuine) : part.Formed genuine := by
  induction h with
  | program => exact hprogram
  | first _ ih => exact ih _ List.mem_cons_self
  | rest _ ih => exact fun statement hstatement => ih _ (List.mem_cons_of_mem _ hstatement)
  | block _ ih => exact fun statement hstatement => Stmt.Formed.enclosed ih hstatement
  | function _ ih => exact fun statement hstatement => Stmt.Formed.enclosed ih hstatement
  | method _ hmethod ih =>
      intro statement hstatement
      exact Stmt.Formed.enclosed ih (List.mem_flatMap.2 ⟨_, hmethod, hstatement⟩)
  | branch _ hbranch ih => exact Stmt.Formed.branch ih hbranch
  | expression _ hexpression ih => exact Stmt.Formed.expression ih hexpression
  | operand _ hoperand ih => exact Expr.Formed.operand ih hoperand

end LoxLang
