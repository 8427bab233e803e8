import Mathlib.Data.List.Nodup
import LoxLang.Tree.Basic

/-!
# The numbers of occurrences

Every occurrence in a tree has a number, by which what is found out about it is recorded.  `ids`
lists the numbers in a tree in the order in which resolution comes past them, `Fresh` says that they
were given out one by one from a stretch of numbers, and `unnumbered` forgets them.
-/

namespace LoxLang

/-! ## Numbers from a stretch -/

/-- The numbers differ from each other and come from a stretch of numbers. -/
structure Fresh (low high : NodeId) (ids : List NodeId) : Prop where
  nodup : ids.Nodup
  ge : ∀ id ∈ ids, low ≤ id
  lt : ∀ id ∈ ids, id < high

namespace Fresh

theorem nil (low high : NodeId) : Fresh low high [] :=
  ⟨List.nodup_nil, by simp, by simp⟩

theorem singleton (id : NodeId) : Fresh id (id + 1) [id] :=
  ⟨List.nodup_singleton id, by simp, by simp⟩

theorem mono {low high low' high' : NodeId} {ids : List NodeId} (h : Fresh low high ids)
    (hlow : low' ≤ low) (hhigh : high ≤ high') : Fresh low' high' ids where
  nodup := h.nodup
  ge id hid := Nat.le_trans hlow (h.ge id hid)
  lt id hid := Nat.lt_of_lt_of_le (h.lt id hid) hhigh

theorem sublist {low high : NodeId} {ids ids' : List NodeId} (h : Fresh low high ids)
    (hsublist : ids'.Sublist ids) : Fresh low high ids' where
  nodup := h.nodup.sublist hsublist
  ge id hid := h.ge id (hsublist.subset hid)
  lt id hid := h.lt id (hsublist.subset hid)

/-- Numbers from one stretch and numbers from a later one. -/
theorem append {low middle high : NodeId} {ids ids' : List NodeId} (h : Fresh low middle ids)
    (h' : Fresh middle high ids') (hlow : low ≤ middle) (hhigh : middle ≤ high) :
    Fresh low high (ids ++ ids') where
  nodup := by
    refine List.nodup_append'.2 ⟨h.nodup, h'.nodup, ?_⟩
    intro id hid hid'
    exact Nat.lt_irrefl _ (Nat.lt_of_lt_of_le (h.lt id hid) (h'.ge id hid'))
  ge := by
    intro id hid
    rcases List.mem_append.1 hid with hid | hid
    · exact h.ge id hid
    · exact Nat.le_trans hlow (h'.ge id hid)
  lt := by
    intro id hid
    rcases List.mem_append.1 hid with hid | hid
    · exact Nat.lt_of_lt_of_le (h.lt id hid) hhigh
    · exact h'.lt id hid

theorem swap {low high : NodeId} {ids ids' : List NodeId} (h : Fresh low high (ids ++ ids')) :
    Fresh low high (ids' ++ ids) where
  nodup := List.nodup_append_comm.1 h.nodup
  ge id hid := h.ge id (List.mem_append.2 (List.mem_append.1 hid).symm)
  lt id hid := h.lt id (List.mem_append.2 (List.mem_append.1 hid).symm)

end Fresh

/-! ## The numbers in a tree -/

mutual

/-- The numbers of the occurrences in an expression. -/
def Expr.ids : Expr → List NodeId
  | .literal _ => []
  | .grouping inner => inner.ids
  | .unary _ operand => operand.ids
  | .binary _ left right => left.ids ++ right.ids
  | .logical _ left right => left.ids ++ right.ids
  | .variable occurrence => [occurrence.id]
  | .assign target value => value.ids ++ [target.id]
  | .call callee _ arguments => callee.ids ++ Expr.idsAll arguments
  | .get object _ => object.ids
  | .set object _ value => value.ids ++ object.ids
  | .thisRef occurrence => [occurrence.id]
  | .superRef occurrence _ => [occurrence.id]

/-- The numbers of the occurrences in several expressions. -/
def Expr.idsAll : List Expr → List NodeId
  | [] => []
  | expression :: rest => expression.ids ++ Expr.idsAll rest

end

/-- The numbers of the occurrences in an expression that may be missing. -/
def Expr.idsOf : Option Expr → List NodeId
  | none => []
  | some expression => expression.ids

mutual

/-- The numbers of the occurrences in a statement. -/
def Stmt.ids : Stmt → List NodeId
  | .block body => Stmt.idsAll body
  | .classDecl _ superclass methods =>
      (superclass.map Occurrence.id).toList ++ FunctionDecl.idsAll methods
  | .expression value => value.ids
  | .function declaration => declaration.ids
  | .conditional condition thenBranch elseBranch =>
      condition.ids ++ thenBranch.ids ++
        match elseBranch with
        | none => []
        | some elseBranch => elseBranch.ids
  | .print value => value.ids
  | .returnValue _ value => Expr.idsOf value
  | .varDecl _ initializer => Expr.idsOf initializer
  | .whileLoop condition body => condition.ids ++ body.ids

/-- The numbers of the occurrences in several statements. -/
def Stmt.idsAll : List Stmt → List NodeId
  | [] => []
  | statement :: rest => statement.ids ++ Stmt.idsAll rest

/-- The numbers of the occurrences in a function. -/
def FunctionDecl.ids : FunctionDecl → List NodeId
  | .mk _ _ body => Stmt.idsAll body

/-- The numbers of the occurrences in several functions. -/
def FunctionDecl.idsAll : List FunctionDecl → List NodeId
  | [] => []
  | method :: rest => method.ids ++ FunctionDecl.idsAll rest

end

/-- The numbers of the occurrences in a statement that may be missing. -/
def Stmt.idsOf : Option Stmt → List NodeId
  | none => []
  | some statement => statement.ids

theorem Stmt.ids_conditional (condition : Expr) (thenBranch : Stmt) (elseBranch : Option Stmt) :
    (Stmt.conditional condition thenBranch elseBranch).ids =
      condition.ids ++ (thenBranch.ids ++ Stmt.idsOf elseBranch) := by
  cases elseBranch <;> simp [Stmt.ids, Stmt.idsOf]

theorem Expr.idsAll_eq_flatMap (expressions : List Expr) :
    Expr.idsAll expressions = expressions.flatMap Expr.ids := by
  induction expressions with
  | nil => rfl
  | cons expression rest ih => simp [Expr.idsAll, ih]

theorem Stmt.idsAll_eq_flatMap (statements : List Stmt) :
    Stmt.idsAll statements = statements.flatMap Stmt.ids := by
  induction statements with
  | nil => rfl
  | cons statement rest ih => simp [Stmt.idsAll, ih]

theorem FunctionDecl.idsAll_eq_flatMap (methods : List FunctionDecl) :
    FunctionDecl.idsAll methods = methods.flatMap FunctionDecl.ids := by
  induction methods with
  | nil => rfl
  | cons method rest ih => simp [FunctionDecl.idsAll, ih]

/-- The increment of a counting loop comes after its body. -/
theorem Stmt.ids_forLoop (initializer : Option Stmt) (condition increment : Option Expr)
    (body : Stmt) :
    (Stmt.forLoop initializer condition increment body).ids =
      Stmt.idsOf initializer ++ (Expr.idsOf condition ++ (body.ids ++ Expr.idsOf increment)) := by
  cases initializer <;> cases condition <;> cases increment <;>
    simp [Stmt.forLoop, Stmt.ids, Stmt.idsAll, Stmt.idsOf, Expr.idsOf, Expr.ids]

/-! ## Trees without their numbers -/

/-- An occurrence with no number of its own. -/
def Occurrence.unnumbered (occurrence : Occurrence) : Occurrence :=
  { occurrence with id := 0 }

mutual

/-- An expression without the numbers of its occurrences. -/
def Expr.unnumbered : Expr → Expr
  | .literal value => .literal value
  | .grouping inner => .grouping inner.unnumbered
  | .unary operator operand => .unary operator operand.unnumbered
  | .binary operator left right => .binary operator left.unnumbered right.unnumbered
  | .logical operator left right => .logical operator left.unnumbered right.unnumbered
  | .variable occurrence => .variable occurrence.unnumbered
  | .assign target value => .assign target.unnumbered value.unnumbered
  | .call callee paren arguments =>
      .call callee.unnumbered paren (Expr.unnumberedAll arguments)
  | .get object name => .get object.unnumbered name
  | .set object name value => .set object.unnumbered name value.unnumbered
  | .thisRef occurrence => .thisRef occurrence.unnumbered
  | .superRef occurrence method => .superRef occurrence.unnumbered method

/-- Several expressions without the numbers of their occurrences. -/
def Expr.unnumberedAll : List Expr → List Expr
  | [] => []
  | expression :: rest => expression.unnumbered :: Expr.unnumberedAll rest

end

mutual

/-- A statement without the numbers of its occurrences. -/
def Stmt.unnumbered : Stmt → Stmt
  | .block body => .block (Stmt.unnumberedAll body)
  | .classDecl name superclass methods =>
      .classDecl name (superclass.map Occurrence.unnumbered) (FunctionDecl.unnumberedAll methods)
  | .expression value => .expression value.unnumbered
  | .function declaration => .function declaration.unnumbered
  | .conditional condition thenBranch elseBranch =>
      .conditional condition.unnumbered thenBranch.unnumbered
        (match elseBranch with
        | none => none
        | some elseBranch => some elseBranch.unnumbered)
  | .print value => .print value.unnumbered
  | .returnValue keyword value => .returnValue keyword (value.map Expr.unnumbered)
  | .varDecl name initializer => .varDecl name (initializer.map Expr.unnumbered)
  | .whileLoop condition body => .whileLoop condition.unnumbered body.unnumbered

/-- Several statements without the numbers of their occurrences. -/
def Stmt.unnumberedAll : List Stmt → List Stmt
  | [] => []
  | statement :: rest => statement.unnumbered :: Stmt.unnumberedAll rest

/-- A function without the numbers of its occurrences. -/
def FunctionDecl.unnumbered : FunctionDecl → FunctionDecl
  | .mk name params body => .mk name params (Stmt.unnumberedAll body)

/-- Several functions without the numbers of their occurrences. -/
def FunctionDecl.unnumberedAll : List FunctionDecl → List FunctionDecl
  | [] => []
  | method :: rest => method.unnumbered :: FunctionDecl.unnumberedAll rest

end

theorem Expr.unnumberedAll_eq_map (expressions : List Expr) :
    Expr.unnumberedAll expressions = expressions.map Expr.unnumbered := by
  induction expressions with
  | nil => rfl
  | cons expression rest ih => simp [Expr.unnumberedAll, ih]

theorem Stmt.unnumberedAll_eq_map (statements : List Stmt) :
    Stmt.unnumberedAll statements = statements.map Stmt.unnumbered := by
  induction statements with
  | nil => rfl
  | cons statement rest ih => simp [Stmt.unnumberedAll, ih]

theorem FunctionDecl.unnumberedAll_eq_map (methods : List FunctionDecl) :
    FunctionDecl.unnumberedAll methods = methods.map FunctionDecl.unnumbered := by
  induction methods with
  | nil => rfl
  | cons method rest ih => simp [FunctionDecl.unnumberedAll, ih]

/-- A program without the numbers of its occurrences. -/
def Program.unnumbered (program : Program) : Program :=
  Stmt.unnumberedAll program

@[simp] theorem Stmt.unnumbered_conditional (condition : Expr) (thenBranch : Stmt)
    (elseBranch : Option Stmt) :
    (Stmt.conditional condition thenBranch elseBranch).unnumbered =
      .conditional condition.unnumbered thenBranch.unnumbered
        (elseBranch.map Stmt.unnumbered) := by
  cases elseBranch <;> simp [Stmt.unnumbered]

/-- The parts of a counting loop lose their numbers one by one. -/
theorem Stmt.unnumbered_forLoop (initializer : Option Stmt) (condition increment : Option Expr)
    (body : Stmt) :
    (Stmt.forLoop initializer condition increment body).unnumbered =
      Stmt.forLoop (initializer.map Stmt.unnumbered) (condition.map Expr.unnumbered)
        (increment.map Expr.unnumbered) body.unnumbered := by
  cases initializer <;> cases condition <;> cases increment <;>
    simp [Stmt.forLoop, Stmt.unnumbered, Stmt.unnumberedAll, Expr.unnumbered]

end LoxLang
