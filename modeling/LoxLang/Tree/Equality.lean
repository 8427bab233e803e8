import LoxLang.Tree.Basic

/-!
# Equality of trees

Trees contain lists of trees, so their equality is decided by functions that go down both trees at
once, with one more function for the lists.
-/

namespace LoxLang

/-! ## Expressions -/

mutual

/-- Whether two expressions are the same. -/
def Expr.same : Expr → Expr → Bool
  | .literal value, .literal value' => value = value'
  | .grouping inner, .grouping inner' => inner.same inner'
  | .unary operator operand, .unary operator' operand' =>
      operator = operator' && operand.same operand'
  | .binary operator left right, .binary operator' left' right' =>
      operator = operator' && left.same left' && right.same right'
  | .logical operator left right, .logical operator' left' right' =>
      operator = operator' && left.same left' && right.same right'
  | .variable place, .variable place' => place = place'
  | .assign target value, .assign target' value' => target = target' && value.same value'
  | .call callee paren arguments, .call callee' paren' arguments' =>
      callee.same callee' && paren = paren' && Expr.sameAll arguments arguments'
  | .get object name, .get object' name' => object.same object' && name = name'
  | .set object name value, .set object' name' value' =>
      object.same object' && name = name' && value.same value'
  | .thisRef place, .thisRef place' => place = place'
  | .superRef place method, .superRef place' method' => place = place' && method = method'
  | _, _ => false

/-- Whether two lists of expressions are the same. -/
def Expr.sameAll : List Expr → List Expr → Bool
  | [], [] => true
  | value :: rest, value' :: rest' => value.same value' && Expr.sameAll rest rest'
  | _, _ => false

end

mutual

theorem Expr.same_iff : (first second : Expr) → (first.same second ↔ first = second)
  | .literal _, second => by cases second <;> simp [Expr.same]
  | .grouping inner, second => by cases second <;> simp [Expr.same, inner.same_iff]
  | .unary _ operand, second => by cases second <;> simp [Expr.same, operand.same_iff]
  | .binary _ left right, second => by
      cases second <;> simp [Expr.same, left.same_iff, right.same_iff, and_assoc]
  | .logical _ left right, second => by
      cases second <;> simp [Expr.same, left.same_iff, right.same_iff, and_assoc]
  | .variable _, second => by cases second <;> simp [Expr.same]
  | .assign _ value, second => by cases second <;> simp [Expr.same, value.same_iff]
  | .call callee _ arguments, second => by
      cases second <;> simp [Expr.same, callee.same_iff, Expr.sameAll_iff arguments, and_assoc]
  | .get object _, second => by cases second <;> simp [Expr.same, object.same_iff]
  | .set object _ value, second => by
      cases second <;> simp [Expr.same, object.same_iff, value.same_iff, and_assoc]
  | .thisRef _, second => by cases second <;> simp [Expr.same]
  | .superRef _ _, second => by cases second <;> simp [Expr.same]

theorem Expr.sameAll_iff : (first second : List Expr) →
    (Expr.sameAll first second ↔ first = second)
  | [], second => by cases second <;> simp [Expr.sameAll]
  | value :: rest, second => by
      cases second <;> simp [Expr.sameAll, value.same_iff, Expr.sameAll_iff rest]

end

instance : DecidableEq Expr :=
  fun first second => decidable_of_iff _ (first.same_iff second)

/-! ## Statements -/

mutual

/-- Whether two statements are the same. -/
def Stmt.same : Stmt → Stmt → Bool
  | .block body, .block body' => Stmt.sameAll body body'
  | .classDecl name superclass methods, .classDecl name' superclass' methods' =>
      name = name' && superclass = superclass' && FunctionDecl.sameAll methods methods'
  | .expression value, .expression value' => value = value'
  | .function declaration, .function declaration' => declaration.same declaration'
  | .conditional condition thenBranch none, .conditional condition' thenBranch' none =>
      condition = condition' && thenBranch.same thenBranch'
  | .conditional condition thenBranch (some elseBranch),
    .conditional condition' thenBranch' (some elseBranch') =>
      condition = condition' && thenBranch.same thenBranch' && elseBranch.same elseBranch'
  | .print value, .print value' => value = value'
  | .returnValue keyword value, .returnValue keyword' value' =>
      keyword = keyword' && value = value'
  | .varDecl name initializer, .varDecl name' initializer' =>
      name = name' && initializer = initializer'
  | .whileLoop condition body, .whileLoop condition' body' =>
      condition = condition' && body.same body'
  | _, _ => false

/-- Whether two lists of statements are the same. -/
def Stmt.sameAll : List Stmt → List Stmt → Bool
  | [], [] => true
  | statement :: rest, statement' :: rest' =>
      statement.same statement' && Stmt.sameAll rest rest'
  | _, _ => false

/-- Whether two functions are the same. -/
def FunctionDecl.same : FunctionDecl → FunctionDecl → Bool
  | .mk name params body, .mk name' params' body' =>
      name = name' && params = params' && Stmt.sameAll body body'

/-- Whether two lists of functions are the same. -/
def FunctionDecl.sameAll : List FunctionDecl → List FunctionDecl → Bool
  | [], [] => true
  | declaration :: rest, declaration' :: rest' =>
      declaration.same declaration' && FunctionDecl.sameAll rest rest'
  | _, _ => false

end

mutual

theorem Stmt.same_iff : (first second : Stmt) → (first.same second ↔ first = second)
  | .block body, second => by cases second <;> simp [Stmt.same, Stmt.sameAll_iff body]
  | .classDecl _ _ methods, second => by
      cases second <;> simp [Stmt.same, FunctionDecl.sameAll_iff methods, and_assoc]
  | .expression _, second => by cases second <;> simp [Stmt.same]
  | .function declaration, second => by cases second <;> simp [Stmt.same, declaration.same_iff]
  | .conditional _ thenBranch none, second => by
      rcases second with _ | _ | _ | _ | ⟨_, _, _ | _⟩ <;> simp [Stmt.same, thenBranch.same_iff]
  | .conditional _ thenBranch (some elseBranch), second => by
      rcases second with _ | _ | _ | _ | ⟨_, _, _ | _⟩ <;>
        simp [Stmt.same, thenBranch.same_iff, elseBranch.same_iff, and_assoc]
  | .print _, second => by cases second <;> simp [Stmt.same]
  | .returnValue _ _, second => by cases second <;> simp [Stmt.same]
  | .varDecl _ _, second => by cases second <;> simp [Stmt.same]
  | .whileLoop _ body, second => by cases second <;> simp [Stmt.same, body.same_iff]

theorem Stmt.sameAll_iff : (first second : List Stmt) →
    (Stmt.sameAll first second ↔ first = second)
  | [], second => by cases second <;> simp [Stmt.sameAll]
  | statement :: rest, second => by
      cases second <;> simp [Stmt.sameAll, statement.same_iff, Stmt.sameAll_iff rest]

theorem FunctionDecl.same_iff : (first second : FunctionDecl) →
    (first.same second ↔ first = second)
  | .mk _ _ body, .mk _ _ _ => by
      simp [FunctionDecl.same, Stmt.sameAll_iff body, and_assoc]

theorem FunctionDecl.sameAll_iff : (first second : List FunctionDecl) →
    (FunctionDecl.sameAll first second ↔ first = second)
  | [], second => by cases second <;> simp [FunctionDecl.sameAll]
  | declaration :: rest, second => by
      cases second <;>
        simp [FunctionDecl.sameAll, declaration.same_iff, FunctionDecl.sameAll_iff rest]

end

instance : DecidableEq Stmt :=
  fun first second => decidable_of_iff _ (first.same_iff second)

end LoxLang
