import LoxLang.Proofs.Grammar.Depth
import LoxLang.Proofs.Grammar.Form
import LoxLang.Proofs.Grammar.Precedence
import LoxLang.Proofs.Token.Spacing
import LoxLang.Proofs.Tree.Outline

/-!
# Outlines of expressions that are read

The tokens of a source text are proper, and an expression that is read from proper tokens is legible
as long as its constants are plain.  So two expressions with one outline differ in nothing but the
numbers of their occurrences and the lines of their tokens (`Expr.eq_of_outline_eq`).
-/

namespace LoxLang

open Grammar

namespace Expr

variable {expression part : Expr} {tokens : List Token}

theorem SpelledAll.exists_spelled {arguments : List Expr} (h : SpelledAll arguments tokens)
    {argument : Expr} (hargument : argument ∈ arguments) :
    ∃ some ⊆ tokens, argument.Spelled some := by
  induction arguments generalizing tokens with
  | nil => cases hargument
  | cons first rest ih =>
      cases rest with
      | nil =>
          obtain rfl := List.mem_singleton.1 hargument
          exact ⟨tokens, List.Subset.refl _, spelledAll_singleton_iff.1 h⟩
      | cons second rest =>
          obtain ⟨before, comma, behind, hfirst, -, hrest, rfl⟩ := spelledAll_cons_iff.1 h
          rcases List.mem_cons.1 hargument with rfl | hmem
          · exact ⟨before, List.subset_append_left _ _, hfirst⟩
          · obtain ⟨some, hsome, hspelled⟩ := ih hrest hmem
            exact ⟨some, fun token htoken => List.mem_append_right _
              (List.mem_cons_of_mem _ (hsome htoken)), hspelled⟩

/-- The tokens of an operand are among those of the expression. -/
theorem Spelled.exists_operand {operand : Expr} (h : expression.Spelled tokens)
    (hoperand : operand ∈ expression.operands) : ∃ some ⊆ tokens, operand.Spelled some := by
  cases expression with
  | literal value => cases hoperand
  | «variable» occurrence => cases hoperand
  | thisRef occurrence => cases hoperand
  | superRef occurrence method => cases hoperand
  | grouping inner =>
      obtain rfl := List.mem_singleton.1 hoperand
      obtain ⟨opening, closing, first, -, hinner, -, rfl⟩ := spelled_grouping_iff.1 h
      exact ⟨first, by simp, hinner⟩
  | unary operator inner =>
      obtain rfl := List.mem_singleton.1 hoperand
      obtain ⟨rest, hinner, rfl⟩ := spelled_unary_iff.1 h
      exact ⟨rest, List.subset_cons_self _ _, hinner⟩
  | binary operator left right =>
      obtain ⟨first, rest, hleft, hright, rfl⟩ := spelled_binary_iff.1 h
      rcases List.mem_pair.1 hoperand with rfl | rfl
      · exact ⟨first, by simp, hleft⟩
      · exact ⟨rest, by simp, hright⟩
  | logical operator left right =>
      obtain ⟨first, rest, hleft, hright, rfl⟩ := spelled_binary_iff.1 h
      rcases List.mem_pair.1 hoperand with rfl | rfl
      · exact ⟨first, by simp, hleft⟩
      · exact ⟨rest, by simp, hright⟩
  | assign target value =>
      obtain rfl := List.mem_singleton.1 hoperand
      obtain ⟨equal, rest, -, -, hvalue, rfl⟩ := spelled_assign_iff.1 h
      exact ⟨rest, by simp, hvalue⟩
  | call callee paren arguments =>
      obtain ⟨first, opening, rest, hcallee, -, harguments, -, rfl⟩ := spelled_call_iff.1 h
      rcases List.mem_cons.1 hoperand with rfl | hargument
      · exact ⟨first, by simp, hcallee⟩
      · obtain ⟨some, hsome, hspelled⟩ := harguments.exists_spelled hargument
        refine ⟨some, fun token htoken => ?_, hspelled⟩
        simp [hsome htoken]
  | get object name =>
      obtain rfl := List.mem_singleton.1 hoperand
      obtain ⟨first, dot, hobject, -, -, rfl⟩ := spelled_get_iff.1 h
      exact ⟨first, by simp, hobject⟩
  | set object name value =>
      obtain ⟨first, dot, equal, rest, hobject, -, -, -, hvalue, rfl⟩ := spelled_set_iff.1 h
      rcases List.mem_pair.1 hoperand with rfl | rfl
      · exact ⟨first, by simp, hobject⟩
      · exact ⟨rest, fun token htoken => by simp [htoken], hvalue⟩

theorem Spelled.exists_inside (hpart : part.Inside expression) (h : expression.Spelled tokens) :
    ∃ some ⊆ tokens, part.Spelled some := by
  induction hpart generalizing tokens with
  | refl => exact ⟨tokens, List.Subset.refl _, h⟩
  | operand hoperand _ ih =>
      obtain ⟨some, hsome, hspelled⟩ := h.exists_operand hoperand
      obtain ⟨fewer, hfewer, hfewerSpelled⟩ := ih hspelled
      exact ⟨fewer, List.Subset.trans hfewer hsome, hfewerSpelled⟩

/-- An expression that proper tokens spell is readable. -/
theorem readable_of_spelled (hproper : ∀ token ∈ tokens, token.Proper)
    (hspelled : part.Spelled tokens) (hholds : part.HoldsOperands)
    (hplain : ∀ value, part = .literal value → value.Plain) : part.Readable := by
  cases part with
  | literal value => exact hplain value rfl
  | grouping inner => trivial
  | unary operator operand =>
      obtain ⟨rest, -, rfl⟩ := spelled_unary_iff.1 hspelled
      refine ⟨?_, hproper operator List.mem_cons_self⟩
      simpa [Kind.unaryOperators, Token.isSymbol] using hholds.1
  | binary operator left right =>
      obtain ⟨first, rest, -, -, rfl⟩ := spelled_binary_iff.1 hspelled
      obtain ⟨tier, hlogical, hbeside⟩ := hholds
      refine ⟨Tier.kinds_subset ?_ ?_ hbeside.operator, hproper operator (by simp)⟩
      · rintro rfl
        cases hlogical
      · rintro rfl
        cases hlogical
  | logical operator left right =>
      obtain ⟨first, rest, -, -, rfl⟩ := spelled_binary_iff.1 hspelled
      obtain ⟨tier, hlogical, hbeside⟩ := hholds
      refine ⟨?_, hproper operator (by simp)⟩
      have hkind := hbeside.operator
      cases tier with
      | disjunction => exact List.mem_cons_of_mem _ hkind
      | conjunction => exact List.mem_cons.2 (.inl (List.mem_singleton.1 hkind))
      | _ => cases hlogical
  | «variable» occurrence =>
      obtain ⟨hname, rfl⟩ := spelled_variable_iff.1 hspelled
      exact ⟨hname, hproper _ List.mem_cons_self⟩
  | assign target value =>
      obtain ⟨equal, rest, hname, -, -, rfl⟩ := spelled_assign_iff.1 hspelled
      exact ⟨hname, hproper _ List.mem_cons_self⟩
  | call callee paren arguments =>
      obtain ⟨first, opening, rest, -, -, -, hparen, rfl⟩ := spelled_call_iff.1 hspelled
      exact ⟨hparen, hproper paren (by simp)⟩
  | get object name =>
      obtain ⟨first, dot, -, -, hname, rfl⟩ := spelled_get_iff.1 hspelled
      exact ⟨hname, hproper name (by simp)⟩
  | set object name value =>
      obtain ⟨first, dot, equal, rest, -, -, hname, -, -, rfl⟩ := spelled_set_iff.1 hspelled
      exact ⟨hname, hproper name (by simp)⟩
  | thisRef occurrence =>
      obtain ⟨hword, rfl⟩ := spelled_thisRef_iff.1 hspelled
      exact ⟨hword, hproper _ List.mem_cons_self⟩
  | superRef occurrence method =>
      obtain ⟨dot, hword, -, hmethod, rfl⟩ := spelled_superRef_iff.1 hspelled
      exact ⟨⟨hword, hproper _ List.mem_cons_self⟩, hmethod, hproper method (by simp)⟩

/-- What is read from the tokens of a source text is legible as long as its constants are plain. -/
theorem legible_of_parse {source : String} {endLine : Nat} {nextId : NodeId}
    (h : (Expr.parse (TokenStream.ofSource source).tokens endLine nextId).result = .ok expression)
    (hplain : ∀ value, (Expr.literal value).Inside expression → value.Plain) :
    expression.Legible := by
  have hproper : ∀ token ∈ (TokenStream.ofSource source).tokens, token.Proper :=
    fun _ => TokenStream.lexeme_of_mem_tokens
  obtain ⟨hexact, -⟩ := (exact_phrases nestingLimit).expression.1 (derives_of_parse_eq_ok h)
  intro part hpart
  obtain ⟨some, hsome, hspelled⟩ := hexact.spelled.exists_inside hpart
  refine readable_of_spelled (fun token htoken => hproper token (hsome htoken)) hspelled
    (hexact.holds part hpart).1 ?_
  rintro value rfl
  exact hplain value hpart

/-- The outline of an expression that is read tells which expression it is, up to the numbers of its
occurrences and the lines of its tokens. -/
theorem eq_of_outline_eq {source source' : String} {endLine endLine' : Nat}
    {nextId nextId' : NodeId} {expression expression' : Expr}
    (h : (Expr.parse (TokenStream.ofSource source).tokens endLine nextId).result = .ok expression)
    (h' : (Expr.parse (TokenStream.ofSource source').tokens endLine' nextId').result =
      .ok expression')
    (hplain : ∀ value, (Expr.literal value).Inside expression → value.Plain)
    (hplain' : ∀ value, (Expr.literal value).Inside expression' → value.Plain)
    (houtline : expression.outline = expression'.outline) :
    expression.unlabelled = expression'.unlabelled := by
  have hrecovers := (legible_of_parse h hplain).recovers
  have heq : expression.outline.toList ++ [] = expression'.outline.toList ++ [] := by
    rw [houtline]
  exact (hrecovers (legible_of_parse h' hplain') .nil .nil heq).1

/-- `a.b = -1`, with a line for what stands behind the point. -/
def negatedProperty (id : NodeId) (line : Nat) (value : Float) : Expr :=
  .set (.variable ⟨id, .named "a" 1⟩) (.named "b" line)
    (.unary ⟨.symbol .minus, "-", line⟩ (.literal (.number value)))

/-- The tokens of `a.b = -1`. -/
def negatedPropertyTokens (line : Nat) (value : Float) : List Token :=
  [.named "a" 1, ⟨.symbol .dot, ".", 1⟩, .named "b" line, ⟨.symbol .equal, "=", line⟩,
    ⟨.symbol .minus, "-", line⟩, ⟨.number value, "1", line⟩]

theorem parse_negatedPropertyTokens (endLine : Nat) (nextId : NodeId) (line : Nat) (value : Float) :
    (Expr.parse (negatedPropertyTokens line value) endLine nextId).result =
      .ok (negatedProperty nextId line value) := by
  rfl

theorem eq_of_outline_eq_negatedProperty :
    let one := decimalValue ['1'] []
    (Expr.parse (TokenStream.ofSource "a.b = -1").tokens 1 0).result =
        .ok (negatedProperty 0 1 one) ∧
      (Expr.parse (TokenStream.ofSource "a.\nb=- 1").tokens 2 5).result =
        .ok (negatedProperty 5 2 one) ∧
      (negatedProperty 0 1 one).unlabelled = (negatedProperty 5 2 one).unlabelled := by
  intro one
  have hfirst : (TokenStream.ofSource "a.b = -1").tokens = negatedPropertyTokens 1 one := by
    decide
  have hsecond : (TokenStream.ofSource "a.\nb=- 1").tokens = negatedPropertyTokens 2 one := by
    decide
  have hparse := parse_negatedPropertyTokens 1 0 1 one
  have hparse' := parse_negatedPropertyTokens 2 5 2 one
  rw [← hfirst] at hparse
  rw [← hsecond] at hparse'
  have hfinite : one.isNaN = false ∧ one.isInf = false := by
    decide
  have hplain (id : NodeId) (line : Nat) :
      ∀ value, (Expr.literal value).Inside (negatedProperty id line one) → value.Plain := by
    intro value hinside
    cases hinside with
    | operand hoperand hinside =>
        rcases List.mem_pair.1 hoperand with rfl | rfl
        · cases hinside with
          | operand hoperand _ => cases hoperand
        · cases hinside with
          | operand hoperand hinside =>
              obtain rfl := List.mem_singleton.1 hoperand
              cases hinside with
              | refl => exact hfinite
              | operand hoperand _ => cases hoperand
  have houtline : (negatedProperty 0 1 one).outline = (negatedProperty 5 2 one).outline := by
    generalize one = number
    rfl
  exact ⟨hparse, hparse', eq_of_outline_eq hparse hparse' (hplain 0 1) (hplain 5 2) houtline⟩

end Expr

end LoxLang
