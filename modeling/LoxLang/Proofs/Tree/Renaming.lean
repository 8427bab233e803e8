import LoxLang.Proofs.Tree.Respelling
import LoxLang.Resolution

/-!
# One local variable renamed

A local variable of a program gets another name: where it is declared, and in the occurrences that
are bound to it.  Which these are is told by the recorded distances: an occurrence with the old
name is bound to the variable if its distance is the number of scopes from the occurrence out to the
scope of the declaration.
-/

namespace LoxLang

/-- The old and the new name of a local variable, and the distances that are recorded for the
program in which it gets the new one. -/
structure Renaming where
  distances : Distances
  old : String
  new : String

namespace Renaming

variable (r : Renaming)

/-- How the new name was spelled before. -/
def spell (name : String) : String :=
  if name = r.new then r.old else name

/-- A token that gets the new name. -/
def token (token : Token) : Token :=
  token.respell fun _ => r.new

/-- The name of a declaration, `depth` scopes further in than the scope of the variable. -/
def declared (depth : Nat) (name : Token) : Token :=
  if name.lexeme = r.old ∧ depth = 0 then r.token name else name

/-- An occurrence, `depth` scopes further in than the scope of the variable. -/
def occurrence (depth : Nat) (occurrence : Occurrence) : Occurrence :=
  if occurrence.name.lexeme = r.old ∧ r.distances[occurrence.id]? = some depth then
    { occurrence with name := r.token occurrence.name }
  else
    occurrence

end Renaming

mutual

/-- An expression in which the variable has its new name. -/
def Expr.rename (r : Renaming) (depth : Nat) : Expr → Expr
  | .literal value => .literal value
  | .grouping inner => .grouping (inner.rename r depth)
  | .unary operator operand => .unary operator (operand.rename r depth)
  | .binary operator left right => .binary operator (left.rename r depth) (right.rename r depth)
  | .logical operator left right => .logical operator (left.rename r depth) (right.rename r depth)
  | .variable occurrence => .variable (r.occurrence depth occurrence)
  | .assign target value => .assign (r.occurrence depth target) (value.rename r depth)
  | .call callee paren arguments =>
      .call (callee.rename r depth) paren (Expr.renameAll r depth arguments)
  | .get object name => .get (object.rename r depth) name
  | .set object name value => .set (object.rename r depth) name (value.rename r depth)
  | .thisRef occurrence => .thisRef occurrence
  | .superRef occurrence method => .superRef occurrence method

/-- Several expressions in which the variable has its new name. -/
def Expr.renameAll (r : Renaming) (depth : Nat) : List Expr → List Expr
  | [] => []
  | expression :: rest => expression.rename r depth :: Expr.renameAll r depth rest

end

/-- How many scopes the body of a class has around it: one for `this`, and one for `super` if there
is a superclass. -/
def classScopes (superclass : Option Occurrence) : Nat :=
  if superclass.isSome then 2 else 1

mutual

/-- A statement in which the variable has its new name. -/
def Stmt.rename (r : Renaming) (depth : Nat) : Stmt → Stmt
  | .block body => .block (Stmt.renameAll r (depth + 1) body)
  | .classDecl name superclass methods =>
      .classDecl name (superclass.map (r.occurrence depth))
        (FunctionDecl.renameAll r (depth + classScopes superclass + 1) methods)
  | .expression value => .expression (value.rename r depth)
  | .function declaration => .function (declaration.rename r (depth + 1))
  | .conditional condition thenBranch elseBranch =>
      .conditional (condition.rename r depth) (thenBranch.rename r depth)
        (match elseBranch with
        | none => none
        | some elseBranch => some (elseBranch.rename r depth))
  | .print value => .print (value.rename r depth)
  | .returnValue keyword value => .returnValue keyword (value.map (Expr.rename r depth))
  | .varDecl name initializer =>
      .varDecl (r.declared depth name) (initializer.map (Expr.rename r depth))
  | .whileLoop condition body => .whileLoop (condition.rename r depth) (body.rename r depth)

/-- Several statements in which the variable has its new name. -/
def Stmt.renameAll (r : Renaming) (depth : Nat) : List Stmt → List Stmt
  | [] => []
  | statement :: rest => statement.rename r depth :: Stmt.renameAll r depth rest

/-- A function in which the variable has its new name; the depth is that of its parameters and its
body. -/
def FunctionDecl.rename (r : Renaming) (depth : Nat) : FunctionDecl → FunctionDecl
  | .mk name params body =>
      .mk name (params.map (r.declared depth)) (Stmt.renameAll r depth body)

/-- Several functions in which the variable has its new name. -/
def FunctionDecl.renameAll (r : Renaming) (depth : Nat) : List FunctionDecl → List FunctionDecl
  | [] => []
  | method :: rest => method.rename r depth :: FunctionDecl.renameAll r depth rest

end

/-! ## The choice of the variable -/

/-- The name of a variable that a statement declares. -/
def Stmt.variable? : Stmt → Option String
  | .varDecl name _ => some name.lexeme
  | _ => none

/-- The names of the variables of a function, its parameters first. -/
def FunctionDecl.variables (declaration : FunctionDecl) : List String :=
  declaration.params.map Token.lexeme ++ declaration.body.filterMap Stmt.variable?

/-- A local variable with the old name, in one block, function or method somewhere in a statement,
has got its new name. -/
inductive Stmt.Renames (r : Renaming) : Stmt → Stmt → Prop
  | block {body : List Stmt} : r.old ∈ body.filterMap Stmt.variable? →
      Renames r (.block body) (.block (Stmt.renameAll r 0 body))
  | function {declaration : FunctionDecl} : r.old ∈ declaration.variables →
      Renames r (.function declaration) (.function (declaration.rename r 0))
  | method {name : Token} {superclass : Option Occurrence} {before after : List FunctionDecl}
      {method : FunctionDecl} : r.old ∈ method.variables →
      Renames r (.classDecl name superclass (before ++ method :: after))
        (.classDecl name superclass (before ++ method.rename r 0 :: after))
  | inBlock {before after : List Stmt} {statement renamed : Stmt} : Renames r statement renamed →
      Renames r (.block (before ++ statement :: after)) (.block (before ++ renamed :: after))
  | inFunction {name : Token} {params : List Token} {before after : List Stmt}
      {statement renamed : Stmt} : Renames r statement renamed →
      Renames r (.function (.mk name params (before ++ statement :: after)))
        (.function (.mk name params (before ++ renamed :: after)))
  | inMethod {name : Token} {superclass : Option Occurrence} {first last : List FunctionDecl}
      {method : Token} {params : List Token} {before after : List Stmt}
      {statement renamed : Stmt} : Renames r statement renamed →
      Renames r
        (.classDecl name superclass
          (first ++ .mk method params (before ++ statement :: after) :: last))
        (.classDecl name superclass
          (first ++ .mk method params (before ++ renamed :: after) :: last))
  | thenBranch {condition : Expr} {thenBranch renamed : Stmt} {elseBranch : Option Stmt} :
      Renames r thenBranch renamed →
      Renames r (.conditional condition thenBranch elseBranch)
        (.conditional condition renamed elseBranch)
  | elseBranch {condition : Expr} {thenBranch elseBranch renamed : Stmt} :
      Renames r elseBranch renamed →
      Renames r (.conditional condition thenBranch (some elseBranch))
        (.conditional condition thenBranch (some renamed))
  | loopBody {condition : Expr} {body renamed : Stmt} : Renames r body renamed →
      Renames r (.whileLoop condition body) (.whileLoop condition renamed)

/-- A local variable of a program has got its new name. -/
inductive Program.Renames (r : Renaming) : Program → Program → Prop
  | mk {before after : List Stmt} {statement renamed : Stmt} : statement.Renames r renamed →
      Renames r (before ++ statement :: after) (before ++ renamed :: after)

/-! ## The old spelling -/

namespace Renaming

variable (r : Renaming)

theorem spell_new : r.spell r.new = r.old :=
  if_pos rfl

theorem spell_of_ne {name : String} (h : name ≠ r.new) : r.spell name = name :=
  if_neg h

theorem spell_old : r.spell r.old = r.old := by
  rw [spell, ite_self]

theorem respell_token {token : Token} (h : token.lexeme = r.old) :
    (r.token token).respell r.spell = token.respell r.spell := by
  show Token.respell _ { token with lexeme := r.new } = Token.respell _ token
  rw [Token.respell, Token.respell, h, spell_old, spell_new]

theorem respell_declared (depth : Nat) (name : Token) :
    (r.declared depth name).respell r.spell = name.respell r.spell := by
  rw [declared]
  split
  · next h => exact r.respell_token h.1
  · rfl

theorem respell_occurrence (depth : Nat) (occurrence : Occurrence) :
    (r.occurrence depth occurrence).respell r.spell = occurrence.respell r.spell := by
  rw [Renaming.occurrence]
  split
  · next h => exact congrArg (Occurrence.mk occurrence.id) (r.respell_token h.1)
  · rfl

end Renaming

mutual

/-- In the old spelling a renamed expression is the one that it was. -/
theorem Expr.respell_rename (r : Renaming) (depth : Nat) :
    (expression : Expr) → (expression.rename r depth).respell r.spell = expression.respell r.spell
  | .literal _ => rfl
  | .grouping inner => by rw [rename, respell, respell, inner.respell_rename]
  | .unary _ operand => by rw [rename, respell, respell, operand.respell_rename]
  | .binary _ left right => by
      rw [rename, respell, respell, left.respell_rename, right.respell_rename]
  | .logical _ left right => by
      rw [rename, respell, respell, left.respell_rename, right.respell_rename]
  | .variable occurrence => congrArg Expr.variable (r.respell_occurrence depth occurrence)
  | .assign target value => by
      rw [rename, respell, respell, value.respell_rename, r.respell_occurrence]
  | .call callee _ arguments => by
      rw [rename, respell, respell, callee.respell_rename, Expr.respellAll_renameAll]
  | .get object _ => by rw [rename, respell, respell, object.respell_rename]
  | .set object _ value => by
      rw [rename, respell, respell, object.respell_rename, value.respell_rename]
  | .thisRef _ => rfl
  | .superRef _ _ => rfl

theorem Expr.respellAll_renameAll (r : Renaming) (depth : Nat) :
    (expressions : List Expr) →
      Expr.respellAll r.spell (Expr.renameAll r depth expressions) =
        Expr.respellAll r.spell expressions
  | [] => rfl
  | expression :: rest => by
      rw [renameAll, respellAll, respellAll, expression.respell_rename,
        Expr.respellAll_renameAll]

end

theorem Expr.map_respell_rename (r : Renaming) (depth : Nat) (expression : Option Expr) :
    (expression.map (Expr.rename r depth)).map (Expr.respell r.spell) =
      expression.map (Expr.respell r.spell) := by
  cases expression with
  | none => rfl
  | some expression => exact congrArg some (expression.respell_rename r depth)

mutual

/-- In the old spelling a renamed statement is the one that it was. -/
theorem Stmt.respell_rename (r : Renaming) (depth : Nat) :
    (statement : Stmt) → (statement.rename r depth).respell r.spell = statement.respell r.spell
  | .block body => by rw [Stmt.rename, Stmt.respell, Stmt.respell, Stmt.respellAll_renameAll]
  | .classDecl name superclass methods => by
      have hsuperclass : (superclass.map (r.occurrence depth)).map (Occurrence.respell r.spell) =
          superclass.map (Occurrence.respell r.spell) := by
        cases superclass with
        | none => rfl
        | some occurrence => exact congrArg some (r.respell_occurrence depth occurrence)
      rw [Stmt.rename, Stmt.respell, Stmt.respell, hsuperclass, FunctionDecl.respellAll_renameAll]
  | .expression value => by rw [Stmt.rename, Stmt.respell, Stmt.respell, value.respell_rename]
  | .function declaration => by
      rw [Stmt.rename, Stmt.respell, Stmt.respell, declaration.respell_rename]
  | .conditional condition thenBranch none => by
      rw [Stmt.rename, Stmt.respell, Stmt.respell, condition.respell_rename,
        thenBranch.respell_rename]
  | .conditional condition thenBranch (some elseBranch) => by
      rw [Stmt.rename, Stmt.respell, Stmt.respell, condition.respell_rename,
        thenBranch.respell_rename, elseBranch.respell_rename]
  | .print value => by rw [Stmt.rename, Stmt.respell, Stmt.respell, value.respell_rename]
  | .returnValue keyword value => by
      rw [Stmt.rename, Stmt.respell, Stmt.respell, Expr.map_respell_rename]
  | .varDecl name initializer => by
      rw [Stmt.rename, Stmt.respell, Stmt.respell, Expr.map_respell_rename, r.respell_declared]
  | .whileLoop condition body => by
      rw [Stmt.rename, Stmt.respell, Stmt.respell, condition.respell_rename, body.respell_rename]

theorem Stmt.respellAll_renameAll (r : Renaming) (depth : Nat) :
    (statements : List Stmt) →
      Stmt.respellAll r.spell (Stmt.renameAll r depth statements) =
        Stmt.respellAll r.spell statements
  | [] => rfl
  | statement :: rest => by
      rw [Stmt.renameAll, Stmt.respellAll, Stmt.respellAll, statement.respell_rename,
        Stmt.respellAll_renameAll]

theorem FunctionDecl.respell_rename (r : Renaming) (depth : Nat) :
    (declaration : FunctionDecl) →
      (declaration.rename r depth).respell r.spell = declaration.respell r.spell
  | .mk name params body => by
      have hparams : (params.map (r.declared depth)).map (Token.respell r.spell) =
          params.map (Token.respell r.spell) := by
        rw [List.map_map]
        exact List.map_congr_left fun param _ => r.respell_declared depth param
      rw [FunctionDecl.rename, FunctionDecl.respell, FunctionDecl.respell, hparams,
        Stmt.respellAll_renameAll]

theorem FunctionDecl.respellAll_renameAll (r : Renaming) (depth : Nat) :
    (methods : List FunctionDecl) →
      FunctionDecl.respellAll r.spell (FunctionDecl.renameAll r depth methods) =
        FunctionDecl.respellAll r.spell methods
  | [] => rfl
  | method :: rest => by
      rw [FunctionDecl.renameAll, FunctionDecl.respellAll, FunctionDecl.respellAll,
        method.respell_rename, FunctionDecl.respellAll_renameAll]

end

theorem FunctionDecl.name_rename (r : Renaming) (depth : Nat) (declaration : FunctionDecl) :
    (declaration.rename r depth).name = declaration.name := by
  cases declaration
  rfl

namespace Stmt.Renames

variable {r : Renaming} {statement renamed : Stmt}

/-- In the old spelling the two statements are the same. -/
theorem respell_eq (h : statement.Renames r renamed) :
    renamed.respell r.spell = statement.respell r.spell := by
  induction h with
  | block _ => rw [respell, respell, Stmt.respellAll_renameAll]
  | function _ => rw [respell, respell, FunctionDecl.respell_rename]
  | method _ =>
      simp only [respell, FunctionDecl.respellAll_eq_map, List.map_append, List.map_cons,
        FunctionDecl.respell_rename]
  | inBlock _ ih => simp only [respell, Stmt.respellAll_eq_map, List.map_append, List.map_cons, ih]
  | inFunction _ ih =>
      simp only [respell, FunctionDecl.respell, Stmt.respellAll_eq_map, List.map_append,
        List.map_cons, ih]
  | inMethod _ ih =>
      simp only [respell, FunctionDecl.respellAll_eq_map, FunctionDecl.respell,
        Stmt.respellAll_eq_map, List.map_append, List.map_cons, ih]
  | thenBranch _ ih => rw [respell_conditional, respell_conditional, ih]
  | elseBranch _ ih => simp only [respell, ih]
  | loopBody _ ih => rw [respell, respell, ih]

end Stmt.Renames

theorem Program.Renames.respell_eq {r : Renaming} {program renamed : Program}
    (h : program.Renames r renamed) : renamed.respell r.spell = program.respell r.spell := by
  cases h with
  | mk hrenames =>
      simp only [Program.respell, Stmt.respellAll_eq_map, List.map_append, List.map_cons,
        hrenames.respell_eq]

end LoxLang
