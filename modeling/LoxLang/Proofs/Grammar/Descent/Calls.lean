import Mathlib.Data.List.Chain
import LoxLang.Proofs.Grammar.Walk.Basic

/-!
# Which rule calls which

Every circle of calls goes through a rule that opens a nesting: between two nestings each call leads
to a rule of a higher rank.  So the calls that a rule stands in are bounded by the nestings that
they have opened.
-/

namespace LoxLang

namespace Rule

/-- The rules that a rule may call. -/
@[simp] def callees : Rule → List Rule
  | program => [declaration]
  | wholeExpression => [expression]
  | declaration => [classDeclaration, function, varDeclaration, statement]
  | classDeclaration => [function]
  | function => [nested .body]
  | varDeclaration => [expression]
  | statement => [nested .statement]
  | statementKind =>
      [forLoop, conditional, print, returnValue, whileLoop, block, expressionStatement]
  | forLoop => [varDeclaration, expressionStatement, expression, statement]
  | conditional => [expression, statement]
  | print => [expression]
  | returnValue => [expression]
  | whileLoop => [expression, statement]
  | expressionStatement => [expression]
  | block => [declaration]
  | expression => [nested .expression]
  | assignment => [tier .disjunction, nested .assigned]
  | tier .disjunction => [tier .conjunction]
  | tier .conjunction => [tier .equality]
  | tier .equality => [tier .comparison]
  | tier .comparison => [tier .term]
  | tier .term => [tier .factor]
  | tier .factor => [unary]
  | unary => [nested .operand, call]
  | call => [primary, finishCall]
  | finishCall => [expression]
  | primary => [expression]
  | nested .statement => [statementKind]
  | nested .body => [block]
  | nested .expression => [assignment]
  | nested .assigned => [assignment]
  | nested .operand => [unary]

/-! ## Nestings -/

/-- Whether a rule opens a nesting. -/
def opensNesting : Rule → Bool
  | nested _ => true
  | _ => false

/-- Whether a rule opens the nesting of a statement or of a function body. -/
def opensStatement : Rule → Bool
  | nested .statement => true
  | nested .body => true
  | _ => false

/-- How many nestings are open inside calls. -/
def nestings (calls : List Rule) : Nat :=
  calls.countP opensNesting

/-- How many nestings of statements and function bodies are open inside calls. -/
def statementNestings (calls : List Rule) : Nat :=
  calls.countP opensStatement

theorem nestings_cons_of_opensNesting {rule : Rule} (hopens : rule.opensNesting)
    (callers : List Rule) : nestings (rule :: callers) = nestings callers + 1 :=
  List.countP_cons_of_pos hopens

theorem nestings_cons_of_not {rule : Rule} (hflat : rule.opensNesting = false)
    (callers : List Rule) : nestings (rule :: callers) = nestings callers :=
  List.countP_cons_of_neg (Bool.eq_false_iff.1 hflat)

/-! ## Ranks -/

/-- How many calls at most lead to a rule since the last nesting has been opened. -/
def rank : Rule → Nat
  | program | wholeExpression | nested _ => 0
  | assignment | statementKind => 1
  | tier .disjunction | block | forLoop | conditional | print | returnValue | whileLoop => 2
  | tier .conjunction | declaration => 3
  | tier .equality | classDeclaration | statement => 4
  | tier .comparison | function | varDeclaration | expressionStatement => 5
  | tier .term => 6
  | tier .factor => 7
  | unary => 8
  | call => 9
  | primary | finishCall => 10
  | expression => 11

/-- How many calls at most there are from one nesting to the next. -/
def callsPerNesting : Nat := 12

theorem rank_lt_callsPerNesting (rule : Rule) : rule.rank < callsPerNesting := by
  cases rule with
  | tier tier => cases tier <;> decide
  | nested _ => exact Nat.zero_lt_succ _
  | _ => decide

/-- A call leads to a rule of a higher rank, unless that rule opens a nesting. -/
theorem rank_lt_of_mem_callees {caller callee : Rule} (h : callee ∈ caller.callees)
    (hflat : callee.opensNesting = false) : caller.rank < callee.rank := by
  have hcallees : ∀ callee ∈ caller.callees,
      callee.opensNesting = false → caller.rank < callee.rank := by
    cases caller with
    | tier tier => cases tier <;> decide
    | nested nesting => cases nesting <;> decide
    | _ => decide
  exact hcallees callee h hflat

/-! ## Calls inside one another -/

/-- Calls each of which is made by the one behind it. -/
def Linked (calls : List Rule) : Prop :=
  calls.IsChain fun callee caller => callee ∈ caller.callees

variable {rule : Rule} {callers : List Rule}

/-- The innermost of the calls makes another one. -/
theorem Linked.cons {caller : Rule} {calls : List Rule} (h : Linked calls)
    (hcaller : calls.head? = some caller) (hcall : rule ∈ caller.callees) :
    Linked (rule :: calls) := by
  obtain ⟨callers, rfl⟩ := List.head?_eq_some_iff.1 hcaller
  exact .cons_cons hcall h

/-- Every nesting adds a bounded number of calls, and so does what follows on the last one. -/
theorem Linked.length_callers_le (h : Linked (rule :: callers)) :
    callers.length ≤ callsPerNesting * nestings (rule :: callers) + rule.rank := by
  induction callers generalizing rule with
  | nil => exact Nat.zero_le _
  | cons caller callers ih =>
      obtain ⟨hcall, hcallers⟩ := List.isChain_cons_cons.1 h
      have hlength := ih hcallers
      cases hopens : rule.opensNesting with
      | false =>
          have hrank := rank_lt_of_mem_callees hcall hopens
          rw [nestings_cons_of_not hopens, List.length_cons]
          omega
      | true =>
          have hrank := caller.rank_lt_callsPerNesting
          rw [nestings_cons_of_opensNesting hopens, List.length_cons, Nat.mul_succ]
          omega

theorem Linked.length_le {calls : List Rule} (h : Linked calls) :
    calls.length ≤ callsPerNesting * (nestings calls + 1) := by
  cases calls with
  | nil => exact Nat.zero_le _
  | cons rule callers =>
      have hcallers := h.length_callers_le
      have hrank := rule.rank_lt_callsPerNesting
      rw [List.length_cons, Nat.mul_succ]
      omega

/-! ## Rules for expressions -/

/-- Whether a rule is one for expressions. -/
def isForExpressions : Rule → Bool
  | expression | assignment | tier _ | unary | call | finishCall | primary => true
  | nested .expression | nested .assigned | nested .operand => true
  | _ => false

/-- A rule for expressions calls rules for expressions only. -/
theorem isForExpressions_of_mem_callees {caller callee : Rule} (h : callee ∈ caller.callees)
    (hcaller : caller.isForExpressions) : callee.isForExpressions := by
  have hcallees : caller.isForExpressions →
      ∀ callee ∈ caller.callees, callee.isForExpressions := by
    cases caller with
    | tier tier => cases tier <;> decide
    | nested nesting => cases nesting <;> decide
    | _ => decide
  exact hcallees hcaller callee h

theorem opensStatement_eq (hrule : rule.isForExpressions = false) :
    rule.opensStatement = rule.opensNesting := by
  cases rule with
  | nested nesting => cases nesting <;> first | rfl | exact absurd hrule Bool.noConfusion
  | _ => rfl

/-- Around a rule that is not one for expressions, only nestings of statements and function bodies
are open. -/
theorem Linked.statementNestings_eq (h : Linked (rule :: callers))
    (hrule : rule.isForExpressions = false) : statementNestings callers = nestings callers := by
  induction callers generalizing rule with
  | nil => rfl
  | cons caller callers ih =>
      obtain ⟨hcall, hcallers⟩ := List.isChain_cons_cons.1 h
      -- Called by a rule for expressions, the rule would be one itself.
      have hcaller : caller.isForExpressions = false := by
        rw [← Bool.not_eq_true] at hrule ⊢
        exact fun hcaller => hrule (isForExpressions_of_mem_callees hcall hcaller)
      have hnestings := ih hcallers hcaller
      unfold statementNestings nestings at hnestings ⊢
      rw [List.countP_cons, List.countP_cons, hnestings, opensStatement_eq hcaller]

end Rule

end LoxLang
