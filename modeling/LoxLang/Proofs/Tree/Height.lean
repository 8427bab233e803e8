import Mathlib.Order.MinMax
import LoxLang.Proofs.Tree.Numbering

/-!
# The height of trees

How far a tree reaches down from its root.  Operators, calls and properties in a row lean to the
left: each is the first operand of the next.  So there are two measures besides the height: the
depth does not count the steps to first operands, and the longest chain tells how many of them there
are in a row.  The height is at most the depth times one more than the longest chain.
-/

namespace LoxLang

/-! ## Expressions -/

namespace Expr

mutual

/-- The nodes on the longest way down an expression.  The step to the first operand of a binary
operator, a call or a property counts as `first`, and every other step as one. -/
def extent (first : Nat) : Expr → Nat
  | .literal _ => 1
  | .grouping inner => inner.extent first + 1
  | .unary _ operand => operand.extent first + 1
  | .binary _ left right => max (left.extent first + first) (right.extent first + 1)
  | .logical _ left right => max (left.extent first + first) (right.extent first + 1)
  | .variable _ => 1
  | .assign _ value => value.extent first + 1
  | .call callee _ arguments => max (callee.extent first + first) (extentAll first arguments + 1)
  | .get object _ => object.extent first + first
  | .set object _ value => max (object.extent first + first) (value.extent first + 1)
  | .thisRef _ => 1
  | .superRef _ _ => 1

/-- The nodes on the longest way down any of several expressions. -/
def extentAll (first : Nat) : List Expr → Nat
  | [] => 0
  | expression :: rest => max (expression.extent first) (extentAll first rest)

end

/-- The nodes on the longest way from the root of an expression to a leaf. -/
abbrev height : Expr → Nat := extent 1

/-- The height of an expression if steps to first operands do not count. -/
abbrev depth : Expr → Nat := extent 0

/-- How many first operands lie on the way down the left side of an expression. -/
def chain : Expr → Nat
  | .binary _ left _ => left.chain + 1
  | .logical _ left _ => left.chain + 1
  | .call callee _ _ => callee.chain + 1
  | .get object _ => object.chain + 1
  | .set object _ _ => object.chain + 1
  | _ => 0

mutual

/-- How many first operands follow each other at most on a way down an expression. -/
def longestChain : Expr → Nat
  | .literal _ => 0
  | .grouping inner => inner.longestChain
  | .unary _ operand => operand.longestChain
  | .binary _ left right => max (left.chain + 1) (max left.longestChain right.longestChain)
  | .logical _ left right => max (left.chain + 1) (max left.longestChain right.longestChain)
  | .variable _ => 0
  | .assign _ value => value.longestChain
  | .call callee _ arguments =>
      max (callee.chain + 1) (max callee.longestChain (longestChainAll arguments))
  | .get object _ => max (object.chain + 1) object.longestChain
  | .set object _ value => max (object.chain + 1) (max object.longestChain value.longestChain)
  | .thisRef _ => 0
  | .superRef _ _ => 0

/-- How many first operands follow each other at most on a way down any of several expressions. -/
def longestChainAll : List Expr → Nat
  | [] => 0
  | expression :: rest => max expression.longestChain (longestChainAll rest)

end

theorem chain_le_longestChain (expression : Expr) : expression.chain ≤ expression.longestChain := by
  cases expression with
  | binary operator left right => exact Nat.le_max_left _ _
  | logical operator left right => exact Nat.le_max_left _ _
  | call callee paren arguments => exact Nat.le_max_left _ _
  | get object name => exact Nat.le_max_left _ _
  | set object name value => exact Nat.le_max_left _ _
  | _ => exact Nat.zero_le _

/-! ### The height in terms of depth and chains

Along a chain the height grows with the chain, and each step off it costs one unit of depth, which
pays for a whole chain.  So for chains of at most `limit` first operands the invariant of a node is
`height + limit ≤ depth * (limit + 1) + chain`. -/

section

variable {limit height depth chain height' depth' : Nat}

/-- A chain within the limit is paid for by the node that it starts from. -/
theorem height_le_of_chain_le (h : height + limit ≤ depth * (limit + 1) + chain)
    (hchain : chain ≤ limit) : height ≤ depth * (limit + 1) := by
  omega

/-- A step that leaves the chain. -/
theorem invariant_of_step (h : height ≤ depth * (limit + 1)) (chain : Nat) :
    height + 1 + limit ≤ (depth + 1) * (limit + 1) + chain := by
  rw [Nat.succ_mul]
  omega

/-- A node whose first operand carries the chain on. -/
theorem invariant_of_fork (hfirst : height + limit ≤ depth * (limit + 1) + chain)
    (hother : height' ≤ depth' * (limit + 1)) :
    max (height + 1) (height' + 1) + limit ≤
      max depth (depth' + 1) * (limit + 1) + (chain + 1) := by
  have hstep := invariant_of_step hother (chain + 1)
  rw [← Nat.mul_max_mul_right]
  omega

end

mutual

/-- The height of an expression all of whose chains are within a limit. -/
theorem height_add_le {limit : Nat} (expression : Expr) (h : expression.longestChain ≤ limit) :
    expression.height + limit ≤ expression.depth * (limit + 1) + expression.chain := by
  cases expression with
  | literal value => simp [extent, chain, Nat.add_comm]
  | «variable» occurrence => simp [extent, chain, Nat.add_comm]
  | thisRef occurrence => simp [extent, chain, Nat.add_comm]
  | superRef occurrence method => simp [extent, chain, Nat.add_comm]
  | grouping inner => exact invariant_of_step (height_le inner h) _
  | unary operator operand => exact invariant_of_step (height_le operand h) _
  | assign target value => exact invariant_of_step (height_le value h) _
  | get object name =>
      have hobject := height_add_le object (Nat.max_le.1 h).2
      simp only [height, depth, extent, chain, Nat.add_zero] at hobject ⊢
      omega
  | binary operator left right =>
      obtain ⟨-, hrest⟩ := Nat.max_le.1 h
      obtain ⟨hleft, hright⟩ := Nat.max_le.1 hrest
      exact invariant_of_fork (height_add_le left hleft) (height_le right hright)
  | logical operator left right =>
      obtain ⟨-, hrest⟩ := Nat.max_le.1 h
      obtain ⟨hleft, hright⟩ := Nat.max_le.1 hrest
      exact invariant_of_fork (height_add_le left hleft) (height_le right hright)
  | call callee paren arguments =>
      obtain ⟨-, hrest⟩ := Nat.max_le.1 h
      obtain ⟨hcallee, harguments⟩ := Nat.max_le.1 hrest
      exact invariant_of_fork (height_add_le callee hcallee) (extentAll_le arguments harguments)
  | set object name value =>
      obtain ⟨-, hrest⟩ := Nat.max_le.1 h
      obtain ⟨hobject, hvalue⟩ := Nat.max_le.1 hrest
      exact invariant_of_fork (height_add_le object hobject) (height_le value hvalue)

theorem height_le {limit : Nat} (expression : Expr) (h : expression.longestChain ≤ limit) :
    expression.height ≤ expression.depth * (limit + 1) :=
  height_le_of_chain_le (height_add_le expression h)
    ((chain_le_longestChain expression).trans h)

theorem extentAll_le {limit : Nat} (expressions : List Expr)
    (h : longestChainAll expressions ≤ limit) :
    extentAll 1 expressions ≤ extentAll 0 expressions * (limit + 1) := by
  cases expressions with
  | nil => simp [extentAll]
  | cons expression rest =>
      obtain ⟨hfirst, hrest⟩ := Nat.max_le.1 h
      rw [extentAll, extentAll, ← Nat.mul_max_mul_right]
      exact max_le_max (height_le expression hfirst) (extentAll_le rest hrest)

end

/-! ### Numbers do not matter -/

mutual

@[simp] theorem extent_unnumbered (first : Nat) (expression : Expr) :
    expression.unnumbered.extent first = expression.extent first := by
  cases expression with
  | literal value => rfl
  | «variable» occurrence => rfl
  | thisRef occurrence => rfl
  | superRef occurrence method => rfl
  | grouping inner => simp [unnumbered, extent, extent_unnumbered first inner]
  | unary operator operand => simp [unnumbered, extent, extent_unnumbered first operand]
  | assign target value => simp [unnumbered, extent, extent_unnumbered first value]
  | get object name => simp [unnumbered, extent, extent_unnumbered first object]
  | binary operator left right =>
      simp [unnumbered, extent, extent_unnumbered first left, extent_unnumbered first right]
  | logical operator left right =>
      simp [unnumbered, extent, extent_unnumbered first left, extent_unnumbered first right]
  | call callee paren arguments =>
      simp [unnumbered, extent, extent_unnumbered first callee,
        extentAll_unnumberedAll first arguments]
  | set object name value =>
      simp [unnumbered, extent, extent_unnumbered first object, extent_unnumbered first value]

theorem extentAll_unnumberedAll (first : Nat) (expressions : List Expr) :
    extentAll first (unnumberedAll expressions) = extentAll first expressions := by
  cases expressions with
  | nil => rfl
  | cons expression rest =>
      simp [unnumberedAll, extentAll, extent_unnumbered first expression,
        extentAll_unnumberedAll first rest]

end

theorem extentAll_le_iff {first limit : Nat} {expressions : List Expr} :
    extentAll first expressions ≤ limit ↔
      ∀ expression ∈ expressions, expression.extent first ≤ limit := by
  induction expressions with
  | nil => simp [extentAll]
  | cons expression rest ih => simp [extentAll, ih]

end Expr

/-! ## Statements -/

namespace Stmt

mutual

/-- The greatest measure on a way down a statement: a statement or function on the way counts as
`node`, and an expression at its end as much as `measure` says. -/
def extent (node : Nat) (measure : Expr → Nat) : Stmt → Nat
  | .block body => extentAll node measure body + node
  | .classDecl _ superclass methods =>
      max (superclass.elim 0 fun occurrence => measure (.variable occurrence))
        (extentMethods node measure methods) + node
  | .expression value => measure value + node
  | .function declaration => extentFunction node measure declaration + node
  | .conditional condition thenBranch elseBranch =>
      max (measure condition) (max (thenBranch.extent node measure)
        (match elseBranch with
        | none => 0
        | some elseBranch => elseBranch.extent node measure)) + node
  | .print value => measure value + node
  | .returnValue _ value => value.elim 0 measure + node
  | .varDecl _ initializer => initializer.elim 0 measure + node
  | .whileLoop condition body => max (measure condition) (body.extent node measure) + node

/-- The greatest measure on a way down any of several statements. -/
def extentAll (node : Nat) (measure : Expr → Nat) : List Stmt → Nat
  | [] => 0
  | statement :: rest => max (statement.extent node measure) (extentAll node measure rest)

/-- The greatest measure on a way down a function. -/
def extentFunction (node : Nat) (measure : Expr → Nat) : FunctionDecl → Nat
  | .mk _ _ body => extentAll node measure body + node

/-- The greatest measure on a way down any of several functions. -/
def extentMethods (node : Nat) (measure : Expr → Nat) : List FunctionDecl → Nat
  | [] => 0
  | method :: rest =>
      max (extentFunction node measure method) (extentMethods node measure rest)

end

theorem extent_conditional (node : Nat) (measure : Expr → Nat) (condition : Expr)
    (thenBranch : Stmt) (elseBranch : Option Stmt) :
    (conditional condition thenBranch elseBranch).extent node measure =
      max (measure condition) (max (thenBranch.extent node measure)
        (elseBranch.elim 0 (extent node measure))) + node := by
  cases elseBranch <;> simp [extent]

theorem extentAll_le_iff {node limit : Nat} {measure : Expr → Nat} {statements : List Stmt} :
    extentAll node measure statements ≤ limit ↔
      ∀ statement ∈ statements, statement.extent node measure ≤ limit := by
  induction statements with
  | nil => simp [extentAll]
  | cons statement rest ih => simp [extentAll, ih]

theorem extentMethods_le_iff {node limit : Nat} {measure : Expr → Nat}
    {methods : List FunctionDecl} :
    extentMethods node measure methods ≤ limit ↔
      ∀ method ∈ methods, extentFunction node measure method ≤ limit := by
  induction methods with
  | nil => simp [extentMethods]
  | cons method rest ih => simp [extentMethods, ih]

/-- The nodes on the longest way from the root of a statement to a leaf. -/
abbrev height : Stmt → Nat := extent 1 Expr.height

/-- The height of a statement if steps to first operands do not count. -/
abbrev depth : Stmt → Nat := extent 1 Expr.depth

/-- How many first operands follow each other at most in the expressions of a statement. -/
abbrev longestChain : Stmt → Nat := extent 0 Expr.longestChain

section

variable {limit height depth height' depth' : Nat}

/-- What a statement adds to its parts is a step that leaves no chain behind. -/
theorem step_le (h : height ≤ depth * (limit + 1)) : height + 1 ≤ (depth + 1) * (limit + 1) := by
  rw [Nat.succ_mul]
  omega

theorem fork_le (h : height ≤ depth * (limit + 1)) (h' : height' ≤ depth' * (limit + 1)) :
    max height height' ≤ max depth depth' * (limit + 1) := by
  rw [← Nat.mul_max_mul_right]
  exact max_le_max h h'

end

variable {limit : Nat}

theorem elim_height_le (value : Option Expr) (h : value.elim 0 Expr.longestChain ≤ limit) :
    value.elim 0 Expr.height ≤ value.elim 0 Expr.depth * (limit + 1) := by
  cases value with
  | none => exact Nat.zero_le _
  | some value => exact value.height_le h

mutual

/-- The height of a statement all of whose chains are within a limit. -/
theorem height_le (statement : Stmt) (h : statement.longestChain ≤ limit) :
    statement.height ≤ statement.depth * (limit + 1) := by
  cases statement with
  | block body => exact step_le (extentAll_le body h)
  | classDecl name superclass methods =>
      obtain ⟨-, hmethods⟩ := Nat.max_le.1 h
      refine step_le (fork_le ?_ (extentMethods_le methods hmethods))
      cases superclass with
      | none => exact Nat.zero_le _
      | some occurrence => exact Expr.height_le (.variable occurrence) (Nat.zero_le _)
  | expression value => exact step_le (value.height_le h)
  | function declaration => exact step_le (extentFunction_le declaration h)
  | conditional condition thenBranch elseBranch =>
      rw [longestChain, extent_conditional, Nat.add_zero] at h
      obtain ⟨hcondition, hbranches⟩ := Nat.max_le.1 h
      obtain ⟨hthen, helse⟩ := Nat.max_le.1 hbranches
      rw [height, depth, extent_conditional, extent_conditional]
      refine step_le (fork_le (condition.height_le hcondition)
        (fork_le (height_le thenBranch hthen) ?_))
      cases elseBranch with
      | none => exact Nat.zero_le _
      | some elseBranch => exact height_le elseBranch helse
  | print value => exact step_le (value.height_le h)
  | returnValue keyword value => exact step_le (elim_height_le value h)
  | varDecl name initializer => exact step_le (elim_height_le initializer h)
  | whileLoop condition body =>
      obtain ⟨hcondition, hbody⟩ := Nat.max_le.1 h
      exact step_le (fork_le (condition.height_le hcondition) (height_le body hbody))

theorem extentAll_le (statements : List Stmt)
    (h : extentAll 0 Expr.longestChain statements ≤ limit) :
    extentAll 1 Expr.height statements ≤ extentAll 1 Expr.depth statements * (limit + 1) := by
  cases statements with
  | nil => exact Nat.zero_le _
  | cons statement rest =>
      obtain ⟨hfirst, hrest⟩ := Nat.max_le.1 h
      exact fork_le (height_le statement hfirst) (extentAll_le rest hrest)

theorem extentFunction_le (declaration : FunctionDecl)
    (h : extentFunction 0 Expr.longestChain declaration ≤ limit) :
    extentFunction 1 Expr.height declaration ≤
      extentFunction 1 Expr.depth declaration * (limit + 1) := by
  cases declaration with
  | mk name params body => exact step_le (extentAll_le body h)

theorem extentMethods_le (methods : List FunctionDecl)
    (h : extentMethods 0 Expr.longestChain methods ≤ limit) :
    extentMethods 1 Expr.height methods ≤ extentMethods 1 Expr.depth methods * (limit + 1) := by
  cases methods with
  | nil => exact Nat.zero_le _
  | cons method rest =>
      obtain ⟨hfirst, hrest⟩ := Nat.max_le.1 h
      exact fork_le (extentFunction_le method hfirst) (extentMethods_le rest hrest)

end

end Stmt

end LoxLang
