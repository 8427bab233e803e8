import LoxLang.Proofs.Token.Lines
import LoxLang.Proofs.Tree.Numbering

/-!
# Relabelled trees

A tree holds labels that say where its parts come from: the numbers of its occurrences and the lines
of its tokens.  A `Relabeling` changes these labels and nothing else.
-/

namespace LoxLang

/-- A change of the numbers of occurrences and of the lines of tokens. -/
structure Relabeling where
  ids : NodeId → NodeId
  lines : Nat → Nat

namespace Relabeling

/-- A change of lines alone. -/
def ofLines (lines : Nat → Nat) : Relabeling :=
  ⟨id, lines⟩

/-- A change of numbers alone. -/
def ofIds (ids : NodeId → NodeId) : Relabeling :=
  ⟨ids, id⟩

variable (r : Relabeling)

def token (token : Token) : Token :=
  token.mapLine r.lines

def occurrence (occurrence : Occurrence) : Occurrence :=
  ⟨r.ids occurrence.id, r.token occurrence.name⟩

@[simp] theorem lexeme_token (token : Token) : (r.token token).lexeme = token.lexeme := rfl

@[simp] theorem kind_token (token : Token) : (r.token token).kind = token.kind := rfl

end Relabeling

mutual

/-- An expression with other labels. -/
def Expr.relabel (r : Relabeling) : Expr → Expr
  | .literal value => .literal value
  | .grouping inner => .grouping (inner.relabel r)
  | .unary operator operand => .unary (r.token operator) (operand.relabel r)
  | .binary operator left right => .binary (r.token operator) (left.relabel r) (right.relabel r)
  | .logical operator left right => .logical (r.token operator) (left.relabel r) (right.relabel r)
  | .variable occurrence => .variable (r.occurrence occurrence)
  | .assign target value => .assign (r.occurrence target) (value.relabel r)
  | .call callee paren arguments =>
      .call (callee.relabel r) (r.token paren) (Expr.relabelAll r arguments)
  | .get object name => .get (object.relabel r) (r.token name)
  | .set object name value => .set (object.relabel r) (r.token name) (value.relabel r)
  | .thisRef occurrence => .thisRef (r.occurrence occurrence)
  | .superRef occurrence method => .superRef (r.occurrence occurrence) (r.token method)

/-- Several expressions with other labels. -/
def Expr.relabelAll (r : Relabeling) : List Expr → List Expr
  | [] => []
  | expression :: rest => expression.relabel r :: Expr.relabelAll r rest

end

mutual

/-- A statement with other labels. -/
def Stmt.relabel (r : Relabeling) : Stmt → Stmt
  | .block body => .block (Stmt.relabelAll r body)
  | .classDecl name superclass methods =>
      .classDecl (r.token name) (superclass.map r.occurrence) (FunctionDecl.relabelAll r methods)
  | .expression value => .expression (value.relabel r)
  | .function declaration => .function (declaration.relabel r)
  | .conditional condition thenBranch elseBranch =>
      .conditional (condition.relabel r) (thenBranch.relabel r)
        (match elseBranch with
        | none => none
        | some elseBranch => some (elseBranch.relabel r))
  | .print value => .print (value.relabel r)
  | .returnValue keyword value => .returnValue (r.token keyword) (value.map (Expr.relabel r))
  | .varDecl name initializer => .varDecl (r.token name) (initializer.map (Expr.relabel r))
  | .whileLoop condition body => .whileLoop (condition.relabel r) (body.relabel r)

/-- Several statements with other labels. -/
def Stmt.relabelAll (r : Relabeling) : List Stmt → List Stmt
  | [] => []
  | statement :: rest => statement.relabel r :: Stmt.relabelAll r rest

/-- A function with other labels. -/
def FunctionDecl.relabel (r : Relabeling) : FunctionDecl → FunctionDecl
  | .mk name params body => .mk (r.token name) (params.map r.token) (Stmt.relabelAll r body)

/-- Several functions with other labels. -/
def FunctionDecl.relabelAll (r : Relabeling) : List FunctionDecl → List FunctionDecl
  | [] => []
  | method :: rest => method.relabel r :: FunctionDecl.relabelAll r rest

end

/-- A program with other labels. -/
def Program.relabel (r : Relabeling) (program : Program) : Program :=
  Stmt.relabelAll r program

section

variable (r : Relabeling)

theorem Expr.relabelAll_eq_map (expressions : List Expr) :
    Expr.relabelAll r expressions = expressions.map (Expr.relabel r) := by
  induction expressions with
  | nil => rfl
  | cons expression rest ih => rw [Expr.relabelAll, ih, List.map_cons]

theorem FunctionDecl.relabelAll_eq_map (methods : List FunctionDecl) :
    FunctionDecl.relabelAll r methods = methods.map (FunctionDecl.relabel r) := by
  induction methods with
  | nil => rfl
  | cons method rest ih => rw [FunctionDecl.relabelAll, ih, List.map_cons]

theorem Stmt.relabel_conditional (condition : Expr) (thenBranch : Stmt)
    (elseBranch : Option Stmt) :
    (Stmt.conditional condition thenBranch elseBranch).relabel r =
      .conditional (condition.relabel r) (thenBranch.relabel r)
        (elseBranch.map (Stmt.relabel r)) := by
  cases elseBranch <;> rfl

/-- The parts of a counting loop get their labels one by one. -/
theorem Stmt.relabel_forLoop (initializer : Option Stmt) (condition increment : Option Expr)
    (body : Stmt) :
    (Stmt.forLoop initializer condition increment body).relabel r =
      Stmt.forLoop (initializer.map (Stmt.relabel r)) (condition.map (Expr.relabel r))
        (increment.map (Expr.relabel r)) (body.relabel r) := by
  cases initializer <;> cases condition <;> cases increment <;>
    simp [Stmt.forLoop, Stmt.relabel, Stmt.relabelAll, Expr.relabel]

end

/-! ## Numbers that stay -/

section

variable {ids : NodeId → NodeId}

@[simp] theorem Relabeling.token_ofIds (token : Token) : (ofIds ids).token token = token := rfl

@[simp] theorem Relabeling.map_token_ofIds (tokens : List Token) :
    tokens.map (ofIds ids).token = tokens :=
  List.map_id tokens

theorem Relabeling.occurrence_ofIds {occurrence : Occurrence}
    (h : ids occurrence.id = occurrence.id) :
    (ofIds ids).occurrence occurrence = occurrence := by
  rw [Relabeling.occurrence, token_ofIds]
  exact congrArg (Occurrence.mk · occurrence.name) h

mutual

/-- An expression stays as it is if its numbers do. -/
theorem Expr.relabel_eq_self :
    (expression : Expr) → (∀ id ∈ expression.ids, ids id = id) →
      expression.relabel (.ofIds ids) = expression
  | .literal _, _ => rfl
  | .grouping inner, h => by rw [Expr.relabel, inner.relabel_eq_self h]
  | .unary operator operand, h => by
      rw [Expr.relabel, operand.relabel_eq_self h, Relabeling.token_ofIds]
  | .binary operator left right, h => by
      obtain ⟨hleft, hright⟩ := List.forall_mem_append.1 h
      rw [Expr.relabel, left.relabel_eq_self hleft, right.relabel_eq_self hright,
        Relabeling.token_ofIds]
  | .logical operator left right, h => by
      obtain ⟨hleft, hright⟩ := List.forall_mem_append.1 h
      rw [Expr.relabel, left.relabel_eq_self hleft, right.relabel_eq_self hright,
        Relabeling.token_ofIds]
  | .variable occurrence, h => by
      rw [Expr.relabel, Relabeling.occurrence_ofIds (h _ List.mem_cons_self)]
  | .assign target value, h => by
      obtain ⟨hvalue, htarget⟩ := List.forall_mem_append.1 h
      rw [Expr.relabel, value.relabel_eq_self hvalue,
        Relabeling.occurrence_ofIds (htarget _ List.mem_cons_self)]
  | .call callee paren arguments, h => by
      obtain ⟨hcallee, harguments⟩ := List.forall_mem_append.1 h
      rw [Expr.relabel, callee.relabel_eq_self hcallee,
        Expr.relabelAll_eq_self arguments harguments, Relabeling.token_ofIds]
  | .get object name, h => by
      rw [Expr.relabel, object.relabel_eq_self h, Relabeling.token_ofIds]
  | .set object name value, h => by
      obtain ⟨hvalue, hobject⟩ := List.forall_mem_append.1 h
      rw [Expr.relabel, object.relabel_eq_self hobject, value.relabel_eq_self hvalue,
        Relabeling.token_ofIds]
  | .thisRef occurrence, h => by
      rw [Expr.relabel, Relabeling.occurrence_ofIds (h _ List.mem_cons_self)]
  | .superRef occurrence method, h => by
      rw [Expr.relabel, Relabeling.occurrence_ofIds (h _ List.mem_cons_self),
        Relabeling.token_ofIds]

theorem Expr.relabelAll_eq_self :
    (expressions : List Expr) → (∀ id ∈ Expr.idsAll expressions, ids id = id) →
      Expr.relabelAll (.ofIds ids) expressions = expressions
  | [], _ => rfl
  | expression :: rest, h => by
      obtain ⟨hfirst, hrest⟩ := List.forall_mem_append.1 h
      rw [Expr.relabelAll, expression.relabel_eq_self hfirst, Expr.relabelAll_eq_self rest hrest]

end

theorem Expr.map_relabel_eq_self (expression : Option Expr)
    (h : ∀ id ∈ Expr.idsOf expression, ids id = id) :
    expression.map (Expr.relabel (.ofIds ids)) = expression := by
  cases expression with
  | none => rfl
  | some expression => exact congrArg some (expression.relabel_eq_self h)

mutual

/-- A statement stays as it is if its numbers do. -/
theorem Stmt.relabel_eq_self :
    (statement : Stmt) → (∀ id ∈ statement.ids, ids id = id) →
      statement.relabel (.ofIds ids) = statement
  | .block body, h => by rw [Stmt.relabel, Stmt.relabelAll_eq_self body h]
  | .classDecl name superclass methods, h => by
      obtain ⟨hsuperclass, hmethods⟩ := List.forall_mem_append.1 h
      rw [Stmt.relabel, FunctionDecl.relabelAll_eq_self methods hmethods,
        Relabeling.token_ofIds]
      cases superclass with
      | none => rfl
      | some occurrence =>
          rw [Option.map_some,
            Relabeling.occurrence_ofIds (hsuperclass _ List.mem_cons_self)]
  | .expression value, h => by rw [Stmt.relabel, value.relabel_eq_self h]
  | .function declaration, h => by rw [Stmt.relabel, declaration.relabel_eq_self h]
  | .conditional condition thenBranch none, h => by
      obtain ⟨hparts, -⟩ := List.forall_mem_append.1 h
      obtain ⟨hcondition, hthen⟩ := List.forall_mem_append.1 hparts
      rw [Stmt.relabel, condition.relabel_eq_self hcondition,
        thenBranch.relabel_eq_self hthen]
  | .conditional condition thenBranch (some elseBranch), h => by
      obtain ⟨hparts, helse⟩ := List.forall_mem_append.1 h
      obtain ⟨hcondition, hthen⟩ := List.forall_mem_append.1 hparts
      rw [Stmt.relabel, condition.relabel_eq_self hcondition,
        thenBranch.relabel_eq_self hthen, elseBranch.relabel_eq_self helse]
  | .print value, h => by rw [Stmt.relabel, value.relabel_eq_self h]
  | .returnValue keyword value, h => by
      rw [Stmt.relabel, Expr.map_relabel_eq_self value h, Relabeling.token_ofIds]
  | .varDecl name initializer, h => by
      rw [Stmt.relabel, Expr.map_relabel_eq_self initializer h,
        Relabeling.token_ofIds]
  | .whileLoop condition body, h => by
      obtain ⟨hcondition, hbody⟩ := List.forall_mem_append.1 h
      rw [Stmt.relabel, condition.relabel_eq_self hcondition, body.relabel_eq_self hbody]

theorem Stmt.relabelAll_eq_self :
    (statements : List Stmt) → (∀ id ∈ Stmt.idsAll statements, ids id = id) →
      Stmt.relabelAll (.ofIds ids) statements = statements
  | [], _ => rfl
  | statement :: rest, h => by
      obtain ⟨hfirst, hrest⟩ := List.forall_mem_append.1 h
      rw [Stmt.relabelAll, statement.relabel_eq_self hfirst, Stmt.relabelAll_eq_self rest hrest]

theorem FunctionDecl.relabel_eq_self :
    (declaration : FunctionDecl) → (∀ id ∈ declaration.ids, ids id = id) →
      declaration.relabel (.ofIds ids) = declaration
  | .mk name params body, h => by
      rw [FunctionDecl.relabel, Stmt.relabelAll_eq_self body h, Relabeling.token_ofIds,
        Relabeling.map_token_ofIds]

theorem FunctionDecl.relabelAll_eq_self :
    (methods : List FunctionDecl) → (∀ id ∈ FunctionDecl.idsAll methods, ids id = id) →
      FunctionDecl.relabelAll (.ofIds ids) methods = methods
  | [], _ => rfl
  | method :: rest, h => by
      obtain ⟨hfirst, hrest⟩ := List.forall_mem_append.1 h
      rw [FunctionDecl.relabelAll, method.relabel_eq_self hfirst,
        FunctionDecl.relabelAll_eq_self rest hrest]

end

/-- A program whose numbers stay is the same program. -/
theorem Program.relabel_eq_self (program : Program)
    (h : ∀ id ∈ Stmt.idsAll program, ids id = id) : program.relabel (.ofIds ids) = program :=
  Stmt.relabelAll_eq_self program h

end

/-! ## One number for all occurrences -/

mutual

/-- To forget the numbers of occurrences is to give all of them one number. -/
theorem Expr.relabel_zero : (expression : Expr) →
    expression.relabel (.ofIds fun _ => 0) = expression.unnumbered
  | .literal _ => rfl
  | .grouping inner => by rw [Expr.relabel, Expr.unnumbered, inner.relabel_zero]
  | .unary operator operand => by
      rw [Expr.relabel, Expr.unnumbered, operand.relabel_zero, Relabeling.token_ofIds]
  | .binary operator left right => by
      rw [Expr.relabel, Expr.unnumbered, left.relabel_zero, right.relabel_zero,
        Relabeling.token_ofIds]
  | .logical operator left right => by
      rw [Expr.relabel, Expr.unnumbered, left.relabel_zero, right.relabel_zero,
        Relabeling.token_ofIds]
  | .variable _ => rfl
  | .assign target value => by
      rw [Expr.relabel, Expr.unnumbered, value.relabel_zero]
      rfl
  | .call callee paren arguments => by
      rw [Expr.relabel, Expr.unnumbered, callee.relabel_zero, Expr.relabelAll_zero arguments,
        Relabeling.token_ofIds]
  | .get object name => by
      rw [Expr.relabel, Expr.unnumbered, object.relabel_zero, Relabeling.token_ofIds]
  | .set object name value => by
      rw [Expr.relabel, Expr.unnumbered, object.relabel_zero, value.relabel_zero,
        Relabeling.token_ofIds]
  | .thisRef _ => rfl
  | .superRef _ _ => rfl

theorem Expr.relabelAll_zero : (expressions : List Expr) →
    Expr.relabelAll (.ofIds fun _ => 0) expressions = Expr.unnumberedAll expressions
  | [] => rfl
  | expression :: rest => by
      rw [Expr.relabelAll, Expr.unnumberedAll, expression.relabel_zero, Expr.relabelAll_zero rest]

end

end LoxLang
