import LoxLang.Proofs.Grammar.Descent.Regular

/-!
# The rules of the walker are regular

One lemma for each rule, wherever it may be called.
-/

namespace LoxLang

namespace Walk

open Grammar (Level Tier)

variable {caller : Rule}

/-! ## Expressions -/

section Expressions

variable {inner : Inner}

/-- The rules for what stands inside a nesting are regular. -/
structure Inner.Regular (inner : Inner) : Prop where
  expression : ∀ {caller : Rule}, .expression ∈ caller.callees →
    Walk.Regular caller inner.expression
  assigned : Walk.Regular .assignment inner.assigned
  operand : Walk.Regular .unary inner.operand

theorem regular_finishCall (h : inner.Regular) (hcall : .finishCall ∈ caller.callees)
    (callee : Expr) : Regular caller (finishCall inner callee) := by
  refine .within rfl hcall (.bind (.items (h.expression (by simp)) nofun) fun arguments => ?_)
  exact .step (.expect _ nofun) fun paren => .pure _

theorem regular_primary (h : inner.Regular) (hcall : .primary ∈ caller.callees) :
    Regular caller (primary inner) := by
  refine .within rfl hcall (.step (.accept? _) fun literal => ?_)
  cases literal with
  | some token => exact .pure _
  | none =>
  refine .step (.accept? _) fun keyword => ?_
  cases keyword with
  | some keyword =>
      refine .step (.expect _ nofun) fun _ => ?_
      refine .step (.expect _ nofun) fun method => ?_
      exact .step (.occurrence keyword) fun place => .pure _
  | none =>
  refine .step (.accept? _) fun keyword => ?_
  cases keyword with
  | some keyword => exact .step (.occurrence keyword) fun place => .pure _
  | none =>
  refine .step (.accept? _) fun name => ?_
  cases name with
  | some name => exact .step (.occurrence name) fun place => .pure _
  | none =>
  refine .step (.accepts _) fun _ => .ite ?_ (.of_steady (.stop nofun))
  refine .bind (h.expression (by simp)) fun expression => ?_
  exact .step (.expect _ nofun) fun _ => .pure _

theorem regular_selections (h : inner.Regular) (limit : Nat) (subject : Expr) :
    Regular .call (selections inner limit subject) := by
  induction limit generalizing subject with
  | zero => exact .endless
  | succ limit ih =>
      refine .step (.accepts _) fun _ => .ite ?_ ?_
      · exact .bind (regular_finishCall h (by simp) subject) fun call => ih call
      refine .step (.accepts _) fun _ => .ite ?_ (.pure subject)
      exact .step (.expect _ nofun) fun name => ih _

theorem regular_call (h : inner.Regular) (hcall : .call ∈ caller.callees) :
    Regular caller (call inner) := by
  refine .within rfl hcall (.bind (regular_primary h (by simp)) fun subject => ?_)
  exact .step .rounds fun limit => regular_selections h limit subject

theorem regular_unary (h : inner.Regular) (hcall : .unary ∈ caller.callees) :
    Regular caller (unary inner) := by
  refine .within rfl hcall (.step (.accept? _) fun operator => ?_)
  cases operator with
  | some operator => exact .bind h.operand fun operand => .pure _
  | none => exact regular_call h (by simp)

theorem regular_operations {level : Level} {next : Walk Expr} (hnext : Regular caller next)
    (limit : Nat) (left : Expr) : Regular caller (operations level next limit left) := by
  induction limit generalizing left with
  | zero => exact .endless
  | succ limit ih =>
      refine .step (.accept? _) fun operator => ?_
      cases operator with
      | none => exact .pure left
      | some operator => exact .bind hnext fun right => ih _

theorem regular_chain {tier : Tier} {next : Walk Expr} (hcall : .tier tier ∈ caller.callees)
    (hnext : Regular (.tier tier) next) : Regular caller (chain tier next) := by
  refine .within rfl hcall (.bind hnext fun first => ?_)
  exact .step .rounds fun limit => regular_operations hnext limit first

theorem regular_disjunction (h : inner.Regular)
    (hcall : .tier .disjunction ∈ caller.callees) : Regular caller (disjunction inner) := by
  refine regular_chain hcall (regular_chain (by simp) (regular_chain (by simp) ?_))
  refine regular_chain (by simp) (regular_chain (by simp) (regular_chain (by simp) ?_))
  exact regular_unary h (by simp)

theorem regular_assignment (h : inner.Regular) (hcall : .assignment ∈ caller.callees) :
    Regular caller (assignment inner) := by
  refine .within rfl hcall (.bind (regular_disjunction h (by simp)) fun target => ?_)
  refine .step (.accept? _) fun equal => ?_
  cases equal with
  | none => exact .pure target
  | some equal => exact .bind h.assigned fun value => .of_steady (.assignTo target equal value)

end Expressions

/-! ## Declarations and statements -/

variable {inner : Enclosed}

/-- The rules for what stands inside a nesting are regular. -/
structure Enclosed.Regular (inner : Enclosed) : Prop extends inner.toInner.Regular where
  statement : ∀ {caller : Rule}, .statement ∈ caller.callees →
    Walk.Regular caller inner.statement
  body : Walk.Regular .function inner.body

theorem regular_function (h : inner.Regular) (hcall : .function ∈ caller.callees)
    (sort : FunctionSort) : Regular caller (function inner sort) := by
  refine .within rfl hcall (.step (.expect _ nofun) fun name => ?_)
  refine .step (.expect _ nofun) fun _ => ?_
  refine .bind (.items (.of_steady (.expect _ nofun)) nofun) fun params => ?_
  refine .step (.expect _ nofun) fun _ => .step (.expect _ nofun) fun _ => ?_
  exact .bind h.body fun body => .pure _

theorem regular_methods (h : inner.Regular) (limit : Nat) :
    Regular .classDeclaration (methods inner limit) := by
  induction limit with
  | zero => exact .endless
  | succ limit ih =>
      refine .step .bodyEnds fun _ => .ite (.pure _) ?_
      exact .bind (regular_function h (by simp) .method) fun method => .bind ih fun _ => .pure _

theorem regular_classDeclaration (h : inner.Regular)
    (hcall : .classDeclaration ∈ caller.callees) : Regular caller (classDeclaration inner) := by
  refine .within rfl hcall (.step (.expect _ nofun) fun name => ?_)
  refine .step .inheritance fun superclass => ?_
  refine .step (.expect _ nofun) fun _ => .step .rounds fun limit => ?_
  refine .bind (regular_methods h limit) fun methods => ?_
  exact .step (.expect _ nofun) fun _ => .pure _

theorem regular_variableValue (h : inner.Regular) :
    Regular .varDeclaration (variableValue inner) := by
  refine .step (.accepts _) fun _ => .ite ?_ (.pure _)
  exact .bind (h.expression (by simp)) fun _ => .pure _

theorem regular_varDeclaration (h : inner.Regular)
    (hcall : .varDeclaration ∈ caller.callees) : Regular caller (varDeclaration inner) := by
  refine .within rfl hcall (.step (.expect _ nofun) fun name => ?_)
  refine .bind (regular_variableValue h) fun initializer => ?_
  exact .step (.expect _ nofun) fun _ => .pure _

theorem regular_expressionStatement (h : inner.Regular)
    (hcall : .expressionStatement ∈ caller.callees) :
    Regular caller (expressionStatement inner) := by
  refine .within rfl hcall (.bind (h.expression (by simp)) fun value => ?_)
  exact .step (.expect _ nofun) fun _ => .pure _

theorem regular_expressionUnless (h : inner.Regular)
    (hcall : .expression ∈ caller.callees) (symbol : Symbol) :
    Regular caller (expressionUnless inner symbol) := by
  refine .step (.check _) fun _ => .ite (.pure _) ?_
  exact .bind (h.expression hcall) fun value => .pure _

theorem regular_loopInitializer (h : inner.Regular) : Regular .forLoop (loopInitializer inner) := by
  refine .step (.accepts _) fun _ => .ite (.pure _) ?_
  refine .step (.accepts _) fun _ => .ite ?_ ?_
  · exact .bind (regular_varDeclaration h (by simp)) fun declaration => .pure _
  · exact .bind (regular_expressionStatement h (by simp)) fun statement => .pure _

theorem regular_forLoop (h : inner.Regular) (hcall : .forLoop ∈ caller.callees) :
    Regular caller (forLoop inner) := by
  refine .within rfl hcall (.step (.expect _ nofun) fun _ => ?_)
  refine .bind (regular_loopInitializer h) fun initializer => ?_
  refine .bind (regular_expressionUnless h (by simp) _) fun condition => ?_
  refine .step (.expect _ nofun) fun _ => ?_
  refine .bind (regular_expressionUnless h (by simp) _) fun increment => ?_
  refine .step (.expect _ nofun) fun _ => ?_
  exact .bind (h.statement (by simp)) fun body => .pure _

theorem regular_elseBranch (h : inner.Regular) : Regular .conditional (elseBranch inner) := by
  refine .step (.accepts _) fun _ => .ite ?_ (.pure _)
  exact .bind (h.statement (by simp)) fun _ => .pure _

theorem regular_conditional (h : inner.Regular) (hcall : .conditional ∈ caller.callees) :
    Regular caller (conditional inner) := by
  refine .within rfl hcall (.step (.expect _ nofun) fun _ => ?_)
  refine .bind (h.expression (by simp)) fun condition => ?_
  refine .step (.expect _ nofun) fun _ => ?_
  refine .bind (h.statement (by simp)) fun thenBranch => ?_
  exact .bind (regular_elseBranch h) fun elseBranch => .pure _

theorem regular_whileLoop (h : inner.Regular) (hcall : .whileLoop ∈ caller.callees) :
    Regular caller (whileLoop inner) := by
  refine .within rfl hcall (.step (.expect _ nofun) fun _ => ?_)
  refine .bind (h.expression (by simp)) fun condition => ?_
  refine .step (.expect _ nofun) fun _ => ?_
  exact .bind (h.statement (by simp)) fun body => .pure _

theorem regular_print (h : inner.Regular) (hcall : .print ∈ caller.callees) :
    Regular caller (print inner) := by
  refine .within rfl hcall (.bind (h.expression (by simp)) fun value => ?_)
  exact .step (.expect _ nofun) fun _ => .pure _

theorem regular_returnValue (h : inner.Regular) (hcall : .returnValue ∈ caller.callees)
    (keyword : Token) : Regular caller (returnValue inner keyword) := by
  refine .within rfl hcall (.bind (regular_expressionUnless h (by simp) _) fun value => ?_)
  exact .step (.expect _ nofun) fun _ => .pure _

theorem regular_declarationOrFault (h : inner.Regular) :
    Regular .declaration (declarationOrFault inner) := by
  refine .step (.accepts _) fun _ => .ite (regular_classDeclaration h (by simp)) ?_
  refine .step (.accepts _) fun _ => .ite ?_ ?_
  · exact .bind (regular_function h (by simp) .function) fun declaration => .pure _
  refine .step (.accepts _) fun _ => .ite (regular_varDeclaration h (by simp)) ?_
  exact h.statement (by simp)

/-- A fault that stops a declaration is noted at the depth at which the declaration began. -/
theorem regular_declaration (h : inner.Regular) (hcall : .declaration ∈ caller.callees) :
    Regular caller (declaration inner) := by
  refine .within rfl hcall (.step .get fun walker => ?_)
  refine .bind (.recover ?_ ?_) fun found => ?_
  · rw [map_eq_pure_bind]
    exact .bind (regular_declarationOrFault h) fun statement => .pure _
  · exact .step .synchronize fun _ => .pure _
  · exact .step (.modify (fun _ => rfl) (fun _ => rfl) (fun _ => rfl) fun _ => rfl) fun _ => .pure _

theorem regular_declarations (h : inner.Regular) (hcall : .declaration ∈ caller.callees)
    {ends : Walk Bool} (hends : Steady ends) (limit : Nat) :
    Regular caller (declarations inner ends limit) := by
  induction limit with
  | zero => exact .endless
  | succ limit ih =>
      refine .step hends fun _ => .ite (.pure _) ?_
      refine .bind (regular_declaration h hcall) fun found => ?_
      cases found with
      | some statement => exact .bind ih fun rest => .pure _
      | none => exact ih

theorem regular_block (h : inner.Regular) (hcall : .block ∈ caller.callees) :
    Regular caller (block inner) := by
  refine .within rfl hcall (.step .rounds fun limit => ?_)
  refine .bind (regular_declarations h (by simp) .bodyEnds limit) fun body => ?_
  exact .step (.expect _ nofun) fun _ => .pure _

theorem regular_statementKind (h : inner.Regular) (hcall : .statementKind ∈ caller.callees) :
    Regular caller (statementKind inner) := by
  refine .within rfl hcall (.step (.accepts _) fun _ => ?_)
  refine .ite (regular_forLoop h (by simp)) (.step (.accepts _) fun _ => ?_)
  refine .ite (regular_conditional h (by simp)) (.step (.accepts _) fun _ => ?_)
  refine .ite (regular_print h (by simp)) (.step (.accept? _) fun keyword => ?_)
  cases keyword with
  | some keyword => exact regular_returnValue h (by simp) keyword
  | none =>
  refine .step (.accepts _) fun _ => .ite (regular_whileLoop h (by simp)) ?_
  refine .step (.accepts _) fun _ => .ite ?_ (regular_expressionStatement h (by simp))
  exact .bind (regular_block h (by simp)) fun body => .pure _

/-! ## Nestings -/

theorem regular_enclosed (fuel : Nat) : (enclosed fuel).Regular := by
  induction fuel with
  | zero =>
      exact {
        expression := fun _ => .endless
        assigned := .endless
        operand := .endless
        statement := fun _ => .endless
        body := .endless }
  | succ fuel ih =>
      exact {
        expression := fun hcall =>
          .within rfl hcall (.nested (by simp) (regular_assignment ih.toRegular (by simp)))
        assigned := .nested (by simp) (regular_assignment ih.toRegular (by simp))
        operand := .nested (by simp) (regular_unary ih.toRegular (by simp))
        statement := fun hcall =>
          .within rfl hcall (.nested (by simp) (regular_statementKind ih (by simp)))
        body := .nested (by simp) (regular_block ih (by simp)) }

end Walk

end LoxLang
