import LoxLang.Proofs.Grammar.Standalone
import LoxLang.Proofs.Scope.Place
import LoxLang.Proofs.Tree.Spelling

/-!
# Which tree an expression is read as

A tree says by itself which tokens it is read from: those that it tells of from left to right,
provided that its operands bind as tightly as their places ask for, that no call has too many
arguments and that not too many nestings are open at once.  Nothing else is read as that tree, and
it is read from nothing else.
-/

namespace LoxLang

open Grammar

/-! ## How tightly expressions bind -/

namespace Grammar.Tier

/-- How tightly the operators of a tier bind; an assignment binds least. -/
def rank : Tier → Nat
  | disjunction => 1
  | conjunction => 2
  | equality => 3
  | comparison => 4
  | term => 5
  | factor => 6

/-- Whether the operators of a tier may do without their right operand. -/
def isLogical : Tier → Bool
  | disjunction | conjunction => true
  | _ => false

/-- The tier of an operator. -/
def ofKind? (kind : Kind) : Option Tier :=
  tiers.find? fun tier => tier.kinds.contains kind

theorem ofKind?_eq {tier : Tier} {kind : Kind} (h : kind ∈ tier.kinds) :
    ofKind? kind = some tier := by
  cases tier <;> simp only [kinds, List.mem_cons, List.not_mem_nil, or_false] at h <;>
    (repeat' rcases h with rfl | h) <;> rfl

end Grammar.Tier

namespace Expr

/-- How tightly a unary operator binds. -/
def unaryRank : Nat := 7

/-- How tightly calls and properties bind, and all that needs no operand on its left. -/
def callRank : Nat := 8

/-- How tightly an expression holds together. -/
def tightness : Expr → Nat
  | .assign _ _ => 0
  | .set _ _ _ => 0
  | .binary operator _ _ => (Tier.ofKind? operator.kind).elim 0 Tier.rank
  | .logical operator _ _ => (Tier.ofKind? operator.kind).elim 0 Tier.rank
  | .unary _ _ => unaryRank
  | _ => callRank

/-- Both operands may stand beside an operator of a tier.  Since it associates to the left, an
operator of the same tier stands on its left only. -/
structure Beside (tier : Tier) (operator : Token) (left right : Expr) : Prop where
  operator : operator.kind ∈ tier.kinds
  left : tier.rank ≤ left.tightness
  right : tier.rank < right.tightness

/-- The operands of an expression bind as tightly as their places ask for. -/
def HoldsOperands : Expr → Prop
  | .unary operator operand =>
      (operator.isSymbol .bang ∨ operator.isSymbol .minus) ∧ unaryRank ≤ operand.tightness
  | .binary operator left right =>
      ∃ tier : Tier, tier.isLogical = false ∧ Beside tier operator left right
  | .logical operator left right => ∃ tier : Tier, tier.isLogical ∧ Beside tier operator left right
  | .call callee _ _ => callRank ≤ callee.tightness
  | .get object _ => callRank ≤ object.tightness
  | .set object _ _ => callRank ≤ object.tightness
  | _ => True

/-- A call has no more arguments than there may be. -/
def IsBrief : Expr → Prop
  | .call _ _ arguments => arguments.length ≤ argumentLimit
  | _ => True

/-- All operands in an expression bind as tightly as their places ask for. -/
def Layered (expression : Expr) : Prop :=
  ∀ part : Expr, part.Inside expression → part.HoldsOperands

/-- No call in an expression has more arguments than there may be. -/
def Brief (expression : Expr) : Prop :=
  ∀ part : Expr, part.Inside expression → part.IsBrief

mutual

/-- How many nestings are open at once inside an expression. -/
def nestings : Expr → Nat
  | .literal _ => 0
  | .grouping inner => inner.nestings + 1
  | .unary _ operand => operand.nestings + 1
  | .binary _ left right => max left.nestings right.nestings
  | .logical _ left right => max left.nestings right.nestings
  | .variable _ => 0
  | .assign _ value => value.nestings + 1
  | .call callee _ arguments => max callee.nestings (nestingsAll arguments)
  | .get object _ => object.nestings
  | .set object _ value => max object.nestings (value.nestings + 1)
  | .thisRef _ => 0
  | .superRef _ _ => 0

/-- How many nestings are open at once in a list of expressions, each of which opens one. -/
def nestingsAll : List Expr → Nat
  | [] => 0
  | expression :: rest => max (expression.nestings + 1) (nestingsAll rest)

end

/-! ### Operators with two operands -/

section

variable {tier : Tier} {operator : Token} {left right : Expr} {tokens : List Token}

theorem spelled_node_iff : (tier.node operator left right).Spelled tokens ↔ ∃ first rest,
    left.Spelled first ∧ right.Spelled rest ∧ tokens = first ++ operator :: rest := by
  cases tier <;> exact spelled_binary_iff

theorem operands_node (tier : Tier) (operator : Token) (left right : Expr) :
    (tier.node operator left right).operands = [left, right] := by
  cases tier <;> rfl

theorem nestings_node (tier : Tier) (operator : Token) (left right : Expr) :
    (tier.node operator left right).nestings = max left.nestings right.nestings := by
  cases tier <;> simp [Tier.node, nestings]

theorem isBrief_node (tier : Tier) (operator : Token) (left right : Expr) :
    (tier.node operator left right).IsBrief := by
  cases tier <;> trivial

theorem elim_rank_lt (tier : Option Tier) : tier.elim 0 Tier.rank < unaryRank := by
  rcases tier with _ | tier
  · decide
  · cases tier <;> decide

theorem tightness_node (h : operator.kind ∈ tier.kinds) (left right : Expr) :
    (tier.node operator left right).tightness = tier.rank := by
  have hrank : (Tier.ofKind? operator.kind).elim 0 Tier.rank = tier.rank := by
    rw [Tier.ofKind?_eq h]
    rfl
  cases tier <;> exact hrank

theorem holdsOperands_node (h : Beside tier operator left right) :
    (tier.node operator left right).HoldsOperands := by
  cases tier <;> exact ⟨_, rfl, h⟩

theorem exists_node_of_binary (h : (binary operator left right).HoldsOperands) :
    ∃ tier : Tier, binary operator left right = tier.node operator left right ∧
      Beside tier operator left right := by
  obtain ⟨tier, htier, hbeside⟩ := h
  refine ⟨tier, ?_, hbeside⟩
  cases tier <;> first | rfl | cases htier

theorem exists_node_of_logical (h : (logical operator left right).HoldsOperands) :
    ∃ tier : Tier, logical operator left right = tier.node operator left right ∧
      Beside tier operator left right := by
  obtain ⟨tier, htier, hbeside⟩ := h
  refine ⟨tier, ?_, hbeside⟩
  cases tier <;> first | rfl | cases htier

end

/-! ### Nodes and their operands -/

variable {holds : Expr → Prop}

/-- What holds inside an expression holds of itself and inside its operands. -/
theorem forall_inside_iff {expression : Expr} :
    (∀ part : Expr, part.Inside expression → holds part) ↔ holds expression ∧
      ∀ operand ∈ expression.operands, ∀ part : Expr, part.Inside operand → holds part := by
  constructor
  · intro h
    exact ⟨h _ .refl, fun operand hoperand part hpart => h part (.operand hoperand hpart)⟩
  · rintro ⟨hself, hoperands⟩ part hpart
    cases hpart with
    | refl => exact hself
    | operand hoperand hpart => exact hoperands _ hoperand part hpart

theorem holds_of_operands_eq_nil {expression : Expr} (hself : holds expression)
    (hoperands : expression.operands = []) : ∀ part : Expr, part.Inside expression → holds part :=
  forall_inside_iff.2 ⟨hself, by simp [hoperands]⟩

/-- A tree that tokens spell, put together as it should be. -/
structure Exact (expression : Expr) (tokens : List Token) : Prop where
  spelled : expression.Spelled tokens
  holds : ∀ part : Expr, part.Inside expression → part.HoldsOperands ∧ part.IsBrief

/-- Trees that tokens with commas in between spell, each put together as it should be. -/
structure ExactAll (expressions : List Expr) (tokens : List Token) : Prop where
  spelled : SpelledAll expressions tokens
  holds : ∀ expression ∈ expressions, ∀ part : Expr, part.Inside expression →
    part.HoldsOperands ∧ part.IsBrief

variable {tokens : List Token}

theorem exactAll_singleton_iff {expression : Expr} :
    ExactAll [expression] tokens ↔ expression.Exact tokens := by
  constructor
  · rintro ⟨hspelled, hholds⟩
    exact ⟨spelledAll_singleton_iff.1 hspelled, hholds _ (List.mem_singleton.2 rfl)⟩
  · rintro ⟨hspelled, hholds⟩
    exact ⟨spelledAll_singleton_iff.2 hspelled, by simpa using hholds⟩

theorem exactAll_cons_iff {expression next : Expr} {rest : List Expr} :
    ExactAll (expression :: next :: rest) tokens ↔ ∃ first comma others,
      expression.Exact first ∧ comma.isSymbol .comma ∧ ExactAll (next :: rest) others ∧
        tokens = first ++ comma :: others := by
  constructor
  · rintro ⟨hspelled, hholds⟩
    obtain ⟨hhead, htail⟩ := List.forall_mem_cons.1 hholds
    obtain ⟨first, comma, others, hfirst, hcomma, hothers, rfl⟩ := spelledAll_cons_iff.1 hspelled
    exact ⟨first, comma, others, ⟨hfirst, hhead⟩, hcomma, ⟨hothers, htail⟩, rfl⟩
  · rintro ⟨first, comma, others, hfirst, hcomma, hothers, rfl⟩
    refine ⟨spelledAll_cons_iff.2 ⟨_, _, _, hfirst.spelled, hcomma, hothers.spelled, rfl⟩, ?_⟩
    exact List.forall_mem_cons.2 ⟨hfirst.holds, hothers.holds⟩

end Expr

/-! ## Expressions inside a nesting -/

namespace Grammar

open LoxLang.Expr

/-- What stands inside a nesting is exactly what is put together as it should be, with fewer
nestings open inside it than there may be. -/
structure Phrases.Exact (within : Phrases) (limit : Nat) : Prop where
  expression : ∀ {tokens : List Token} {a : Expr},
    within.expression tokens a ↔ a.Exact tokens ∧ a.nestings < limit
  operand : ∀ {tokens : List Token} {a : Expr}, within.operand tokens a ↔
    (a.Exact tokens ∧ a.nestings < limit) ∧ unaryRank ≤ a.tightness

variable {within : Phrases} {limit : Nat} {tokens tokens' : List Token} {a : Expr}

/-- The arguments of a call stand inside a nesting each. -/
theorem separated_expression_iff (hwithin : within.Exact limit) {first : Expr}
    {rest : List Expr} : Separated within.expression tokens (first :: rest) ↔
      ExactAll (first :: rest) tokens ∧ nestingsAll (first :: rest) ≤ limit := by
  induction rest generalizing first tokens with
  | nil =>
      rw [exactAll_singleton_iff, nestingsAll, nestingsAll, Nat.max_zero, Nat.succ_le_iff,
        ← hwithin.expression]
      constructor
      · intro h
        cases h with
        | one hfirst => exact hfirst
        | more _ _ hrest => cases hrest
      · exact .one
  | cons next rest ih =>
      rw [exactAll_cons_iff, nestingsAll, Nat.max_le, Nat.succ_le_iff]
      constructor
      · intro h
        cases h with
        | more hfirst hcomma hrest =>
            obtain ⟨hfirst, hnestings⟩ := hwithin.expression.1 hfirst
            obtain ⟨hrest, hnestings'⟩ := ih.1 hrest
            exact ⟨⟨_, _, _, hfirst, hcomma, hrest, rfl⟩, hnestings, hnestings'⟩
      · rintro ⟨⟨_, _, _, hfirst, hcomma, hrest, rfl⟩, hnestings, hnestings'⟩
        exact .more (hwithin.expression.2 ⟨hfirst, hnestings⟩) hcomma (ih.2 ⟨hrest, hnestings'⟩)

theorem listed_expression_iff (hwithin : within.Exact limit) {arguments : List Expr} :
    Listed within.expression tokens arguments ↔
      ExactAll arguments tokens ∧ nestingsAll arguments ≤ limit := by
  cases arguments with
  | nil =>
      constructor
      · rintro (⟨rfl, -⟩ | h)
        · exact ⟨⟨spelledAll_nil_iff.2 rfl, by simp⟩, Nat.zero_le _⟩
        · cases h
      · rintro ⟨h, -⟩
        exact .inl ⟨spelledAll_nil_iff.1 h.spelled, rfl⟩
  | cons first rest =>
      rw [← separated_expression_iff hwithin]
      exact ⟨fun h => h.resolve_left fun hnil => List.cons_ne_nil _ _ hnil.2, .inr⟩

/-! ## From tokens to the tree -/

/-- A tree that is put together as it should be and binds as tightly as asked for, with no more
nestings open inside it than there may be. -/
structure FitsAt (rank limit : Nat) (tokens : List Token) (a : Expr) : Prop where
  exact : a.Exact tokens
  nestings_le : a.nestings ≤ limit
  rank_le : rank ≤ a.tightness

theorem FitsAt.mono {rank rank' : Nat} (h : FitsAt rank limit tokens a) (hle : rank' ≤ rank) :
    FitsAt rank' limit tokens a :=
  { h with rank_le := hle.trans h.rank_le }

theorem Constant.kind_eq {token : Token} {value : Literal} (h : Constant token value) :
    token.kind = value.kind := by
  cases h with
  | nil h => exact eq_of_beq h
  | true h => exact eq_of_beq h
  | false h => exact eq_of_beq h
  | number h => exact h
  | string h => exact h

theorem Primary.fitsAt (hwithin : within.Exact limit) (h : Primary within tokens a) :
    FitsAt callRank limit tokens a := by
  cases h with
  | constant hconstant =>
      refine ⟨⟨spelled_literal_iff.2 ⟨_, hconstant.kind_eq, rfl⟩, ?_⟩, Nat.zero_le _, Nat.le_refl _⟩
      exact holds_of_operands_eq_nil ⟨trivial, trivial⟩ rfl
  | thisRef hkeyword =>
      refine ⟨⟨spelled_thisRef_iff.2 ⟨hkeyword, rfl⟩, ?_⟩, Nat.zero_le _, Nat.le_refl _⟩
      exact holds_of_operands_eq_nil ⟨trivial, trivial⟩ rfl
  | name hname =>
      refine ⟨⟨spelled_variable_iff.2 ⟨hname, rfl⟩, ?_⟩, Nat.zero_le _, Nat.le_refl _⟩
      exact holds_of_operands_eq_nil ⟨trivial, trivial⟩ rfl
  | superRef hkeyword hdot hmethod =>
      refine ⟨⟨spelled_superRef_iff.2 ⟨_, hkeyword, hdot, hmethod, rfl⟩, ?_⟩, Nat.zero_le _,
        Nat.le_refl _⟩
      exact holds_of_operands_eq_nil ⟨trivial, trivial⟩ rfl
  | grouping hopening hexpression hclosing =>
      obtain ⟨hinner, hnestings⟩ := hwithin.expression.1 hexpression
      refine ⟨⟨?_, ?_⟩, hnestings, Nat.le_refl _⟩
      · exact spelled_grouping_iff.2 ⟨_, _, _, hopening, hinner.spelled, hclosing, rfl⟩
      · exact forall_inside_iff.2 ⟨⟨trivial, trivial⟩, by simpa [operands] using hinner.holds⟩

theorem Selections.fitsAt (hwithin : within.Exact limit) {subject : Expr}
    (h : Selections within subject tokens' a) (hsubject : FitsAt callRank limit tokens subject) :
    FitsAt callRank limit (tokens ++ tokens') a := by
  induction h generalizing tokens with
  | done => rwa [List.append_nil]
  | @call subject _ opening closing tokens' _ arguments hopening hlist hlength hclosing _ ih =>
      obtain ⟨harguments, hnestings⟩ := (listed_expression_iff hwithin).1 hlist
      have hcall : FitsAt callRank limit (tokens ++ opening :: (tokens' ++ [closing]))
          (.call subject closing arguments) := by
        refine ⟨⟨?_, ?_⟩, Nat.max_le.2 ⟨hsubject.nestings_le, hnestings⟩, Nat.le_refl _⟩
        · exact spelled_call_iff.2 ⟨_, _, _, hsubject.exact.spelled, hopening, harguments.spelled,
            hclosing, rfl⟩
        · exact forall_inside_iff.2 ⟨⟨hsubject.rank_le, hlength⟩,
            List.forall_mem_cons.2 ⟨hsubject.exact.holds, harguments.holds⟩⟩
      simpa using ih hcall
  | @get subject _ dot name _ hdot hname _ ih =>
      have hget : FitsAt callRank limit (tokens ++ [dot, name]) (.get subject name) := by
        refine ⟨⟨?_, ?_⟩, hsubject.nestings_le, Nat.le_refl _⟩
        · exact spelled_get_iff.2 ⟨_, _, hsubject.exact.spelled, hdot, hname, rfl⟩
        · exact forall_inside_iff.2 ⟨⟨hsubject.rank_le, trivial⟩,
            List.forall_mem_singleton.2 hsubject.exact.holds⟩
      simpa using ih hget

theorem Call.fitsAt (hwithin : within.Exact limit) (h : Call within tokens a) :
    FitsAt callRank limit tokens a := by
  cases h with
  | mk hprimary hselections => exact hselections.fitsAt hwithin (hprimary.fitsAt hwithin)

theorem Unary.fitsAt (hwithin : within.Exact limit) (h : Unary within tokens a) :
    FitsAt unaryRank limit tokens a := by
  cases h with
  | call hcall => exact (hcall.fitsAt hwithin).mono (Nat.le_succ _)
  | operator hoperator hoperand =>
      obtain ⟨⟨hoperand, hnestings⟩, hrank⟩ := hwithin.operand.1 hoperand
      refine ⟨⟨spelled_unary_iff.2 ⟨_, hoperand.spelled, rfl⟩, ?_⟩, hnestings, Nat.le_refl _⟩
      exact forall_inside_iff.2 ⟨⟨⟨hoperator, hrank⟩, trivial⟩,
        List.forall_mem_singleton.2 hoperand.holds⟩

/-- An operator with operands that may stand beside it. -/
theorem FitsAt.node {tier : Tier} {operator : Token} {left right : Expr} {first rest : List Token}
    (hoperator : operator.kind ∈ tier.kinds) (hleft : FitsAt tier.rank limit first left)
    (hright : FitsAt (tier.rank + 1) limit rest right) :
    FitsAt tier.rank limit (first ++ operator :: rest) (tier.node operator left right) := by
  have hoperands : ∀ operand ∈ [left, right], ∀ part : Expr, part.Inside operand →
      part.HoldsOperands ∧ part.IsBrief :=
    List.forall_mem_cons.2 ⟨hleft.exact.holds, List.forall_mem_singleton.2 hright.exact.holds⟩
  refine ⟨⟨?_, ?_⟩, ?_, ?_⟩
  · exact spelled_node_iff.2 ⟨_, _, hleft.exact.spelled, hright.exact.spelled, rfl⟩
  · rw [← operands_node tier operator] at hoperands
    have hholds := holdsOperands_node ⟨hoperator, hleft.rank_le, hright.rank_le⟩
    exact forall_inside_iff.2 ⟨⟨hholds, isBrief_node _ _ _ _⟩, hoperands⟩
  · rw [nestings_node]
    exact Nat.max_le.2 ⟨hleft.nestings_le, hright.nestings_le⟩
  · exact (tightness_node hoperator left right).ge

theorem Operations.fitsAt {tier : Tier} {derives : List Token → Expr → Prop} {left : Expr}
    (hderives : ∀ {tokens : List Token} {a : Expr}, derives tokens a →
      FitsAt (tier.rank + 1) limit tokens a)
    (h : Operations tier derives left tokens' a) (hleft : FitsAt tier.rank limit tokens left) :
    FitsAt tier.rank limit (tokens ++ tokens') a := by
  induction h generalizing tokens with
  | done => rwa [List.append_nil]
  | more hoperator hright _ ih => simpa using ih (hleft.node hoperator (hderives hright))

/-- The tiers from one on, the loosest first, are as many as bind more loosely than a unary
operator. -/
theorem Tier.rank_add_length {tier : Tier} {tighter : List Tier} (h : tier :: tighter <:+ tiers) :
    tier.rank + (tighter.length + 1) = unaryRank := by
  simp only [tiers, List.suffix_cons_iff, List.suffix_nil, List.cons.injEq, reduceCtorEq,
    or_false] at h
  rcases h with h | h | h | h | h | h <;> obtain ⟨rfl, rfl⟩ := h <;> rfl

/-- No tier binds as loosely as an assignment. -/
theorem not_rank_le_zero {some : List Tier} (h : some <:+ tiers) :
    ¬unaryRank - some.length ≤ 0 := by
  have hlength : some.length ≤ 6 := h.length_le
  have hrank : unaryRank = 7 := rfl
  omega

theorem Layered.fitsAt (hwithin : within.Exact limit) {some : List Tier} (hsome : some <:+ tiers)
    (h : Layered within some tokens a) : FitsAt (unaryRank - some.length) limit tokens a := by
  induction some generalizing tokens a with
  | nil => exact Unary.fitsAt hwithin h
  | cons tier tighter ih =>
      have hrank := Tier.rank_add_length hsome
      have htighter : tighter <:+ tiers := (List.suffix_cons _ _).trans hsome
      have hloose : unaryRank - (tier :: tighter).length = tier.rank := by
        rw [List.length_cons]
        omega
      have htight : unaryRank - tighter.length = tier.rank + 1 := by omega
      rw [hloose]
      rw [htight] at ih
      cases h with
      | mk hfirst hoperations =>
          exact hoperations.fitsAt (ih htighter) ((ih htighter hfirst).mono (Nat.le_succ _))

theorem Assignment.fitsAt (hwithin : within.Exact limit) (h : Assignment within tokens a) :
    a.Exact tokens ∧ a.nestings ≤ limit := by
  cases h with
  | plain hplain =>
      have hfits := Layered.fitsAt hwithin List.suffix_rfl hplain
      exact ⟨hfits.exact, hfits.nestings_le⟩
  | toVariable hname hequal hvalue =>
      obtain ⟨hvalue, hnestings⟩ := hwithin.expression.1 hvalue
      refine ⟨⟨spelled_assign_iff.2 ⟨_, _, hname, hequal, hvalue.spelled, rfl⟩, ?_⟩, hnestings⟩
      exact forall_inside_iff.2 ⟨⟨trivial, trivial⟩, List.forall_mem_singleton.2 hvalue.holds⟩
  | toProperty hobject hdot hname hequal hvalue =>
      have hobject := hobject.fitsAt hwithin
      obtain ⟨hvalue, hnestings⟩ := hwithin.expression.1 hvalue
      refine ⟨⟨?_, ?_⟩, Nat.max_le.2 ⟨hobject.nestings_le, hnestings⟩⟩
      · exact spelled_set_iff.2 ⟨_, _, _, _, hobject.exact.spelled, hdot, hname, hequal,
          hvalue.spelled, rfl⟩
      · exact forall_inside_iff.2 ⟨⟨hobject.rank_le, trivial⟩,
          List.forall_mem_cons.2 ⟨hobject.exact.holds, List.forall_mem_singleton.2 hvalue.holds⟩⟩

/-! ## From the tree to tokens -/

theorem constant_of_kind_eq {token : Token} {value : Literal} (h : token.kind = value.kind) :
    Constant token value := by
  cases value with
  | nil => exact .nil (beq_iff_eq.2 h)
  | bool value =>
      cases value with
      | true => exact .true (beq_iff_eq.2 h)
      | false => exact .false (beq_iff_eq.2 h)
  | number value => exact .number h
  | string value => exact .string h

/-- One more operator of a tier can stand behind some. -/
theorem Operations.append {tier : Tier} {derives : List Token → Expr → Prop}
    {left middle right : Expr} {operator : Token} (h : Operations tier derives left tokens middle)
    (hoperator : operator.kind ∈ tier.kinds) (hright : derives tokens' right) :
    Operations tier derives left (tokens ++ operator :: tokens')
      (tier.node operator middle right) := by
  induction h with
  | done => simpa using Operations.more hoperator hright .done
  | more hoperator' hright' _ ih => simpa using Operations.more hoperator' hright' ih

/-- One more call can be made behind some. -/
theorem Selections.append_call {subject callee : Expr} {opening closing : Token}
    {arguments : List Expr} (h : Selections within subject tokens callee)
    (hopening : opening.isSymbol .leftParen) (hlist : Listed within.expression tokens' arguments)
    (hlength : arguments.length ≤ argumentLimit) (hclosing : closing.isSymbol .rightParen) :
    Selections within subject (tokens ++ opening :: (tokens' ++ [closing]))
      (.call callee closing arguments) := by
  induction h with
  | done => exact .call hopening hlist hlength hclosing .done
  | call hopening' hlist' hlength' hclosing' _ ih =>
      simpa using Selections.call hopening' hlist' hlength' hclosing' ih
  | get hdot hname _ ih => exact .get hdot hname ih

/-- A primary expression by itself. -/
theorem Primary.call (h : Primary within tokens a) : Call within tokens a := by
  rw [← List.append_nil tokens]
  exact .mk h .done

/-- What tighter tiers derive, looser ones derive too. -/
theorem Layered.mono_suffix {tighter looser : List Tier} (h : Layered within tighter tokens a)
    (hsuffix : tighter <:+ looser) : Layered within looser tokens a := by
  induction looser with
  | nil => rwa [List.suffix_nil.1 hsuffix] at h
  | cons tier rest ih =>
      rcases List.suffix_cons_iff.1 hsuffix with rfl | hsuffix
      · exact h
      · have hchain : Chain tier (Layered within rest) (tokens ++ []) a := .mk (ih hsuffix) .done
        rwa [List.append_nil] at hchain

/-- What binds as tightly as a call is derived by a primary expression with calls and properties. -/
theorem FitsAt.call (hwithin : within.Exact limit) (a : Expr) {tokens : List Token}
    (h : FitsAt callRank limit tokens a) : Call within tokens a := by
  obtain ⟨⟨hholds, hbrief⟩, hoperands⟩ := forall_inside_iff.1 h.exact.holds
  cases a with
  | literal value =>
      obtain ⟨token, hkind, rfl⟩ := spelled_literal_iff.1 h.exact.spelled
      exact (Primary.constant (constant_of_kind_eq hkind)).call
  | grouping inner =>
      obtain ⟨opening, closing, first, hopening, hinner, hclosing, rfl⟩ :=
        spelled_grouping_iff.1 h.exact.spelled
      have hexact : inner.Exact first := ⟨hinner, hoperands inner (List.mem_singleton.2 rfl)⟩
      have hexpression := hwithin.expression.2 ⟨hexact, h.nestings_le⟩
      exact (Primary.grouping hopening hexpression hclosing).call
  | «variable» occurrence =>
      obtain ⟨hname, rfl⟩ := spelled_variable_iff.1 h.exact.spelled
      exact (Primary.name hname).call
  | thisRef occurrence =>
      obtain ⟨hkeyword, rfl⟩ := spelled_thisRef_iff.1 h.exact.spelled
      exact (Primary.thisRef hkeyword).call
  | superRef occurrence method =>
      obtain ⟨dot, hkeyword, hdot, hmethod, rfl⟩ := spelled_superRef_iff.1 h.exact.spelled
      exact (Primary.superRef hkeyword hdot hmethod).call
  | call callee paren arguments =>
      obtain ⟨first, opening, rest, hcallee, hopening, harguments, hparen, rfl⟩ :=
        spelled_call_iff.1 h.exact.spelled
      obtain ⟨hnestings, hnestings'⟩ := Nat.max_le.1 h.nestings_le
      obtain ⟨hcalleeHolds, hargumentsHold⟩ := List.forall_mem_cons.1 hoperands
      have hlist := (listed_expression_iff hwithin).2 ⟨⟨harguments, hargumentsHold⟩, hnestings'⟩
      cases FitsAt.call hwithin callee ⟨⟨hcallee, hcalleeHolds⟩, hnestings, hholds⟩ with
      | mk hprimary hselections =>
          rw [List.append_assoc]
          exact .mk hprimary (hselections.append_call hopening hlist hbrief hparen)
  | get object name =>
      obtain ⟨first, dot, hobject, hdot, hname, rfl⟩ := spelled_get_iff.1 h.exact.spelled
      have hexact : object.Exact first := ⟨hobject, hoperands object (List.mem_singleton.2 rfl)⟩
      cases FitsAt.call hwithin object ⟨hexact, h.nestings_le, hholds⟩ with
      | mk hprimary hselections =>
          rw [List.append_assoc]
          exact .mk hprimary (hselections.append_get hdot hname)
  | unary operator operand => exact absurd h.rank_le (Nat.not_succ_le_self _)
  | binary operator left right =>
      exact absurd h.rank_le (Nat.not_le_of_lt (Nat.lt_succ_of_lt (elim_rank_lt _)))
  | logical operator left right =>
      exact absurd h.rank_le (Nat.not_le_of_lt (Nat.lt_succ_of_lt (elim_rank_lt _)))
  | assign target value => exact absurd h.rank_le (Nat.not_succ_le_zero _)
  | set object name value => exact absurd h.rank_le (Nat.not_succ_le_zero _)

theorem FitsAt.unary (hwithin : within.Exact limit) (h : FitsAt unaryRank limit tokens a) :
    Unary within tokens a := by
  rcases Nat.lt_or_ge a.tightness callRank with hlt | hge
  · cases a with
    | unary operator operand =>
        obtain ⟨⟨⟨hoperator, hrank⟩, -⟩, hoperands⟩ := forall_inside_iff.1 h.exact.holds
        obtain ⟨rest, hoperand, rfl⟩ := spelled_unary_iff.1 h.exact.spelled
        have hexact : operand.Exact rest := ⟨hoperand, hoperands _ (List.mem_singleton.2 rfl)⟩
        exact .operator hoperator (hwithin.operand.2 ⟨⟨hexact, h.nestings_le⟩, hrank⟩)
    | binary operator left right =>
        exact absurd h.rank_le (Nat.not_le_of_lt (elim_rank_lt _))
    | logical operator left right =>
        exact absurd h.rank_le (Nat.not_le_of_lt (elim_rank_lt _))
    | assign target value => exact absurd h.rank_le (Nat.not_succ_le_zero _)
    | set object name value => exact absurd h.rank_le (Nat.not_succ_le_zero _)
    | _ => exact absurd hlt (Nat.lt_irrefl _)
  · exact .call (FitsAt.call hwithin a { h with rank_le := hge })

/-- The operators of a tier stand behind what the tiers from it on derive. -/
theorem Layered.node {tier : Tier} {tighter : List Tier} {operator : Token} {left right : Expr}
    (hleft : Layered within (tier :: tighter) tokens left) (hoperator : operator.kind ∈ tier.kinds)
    (hright : Layered within tighter tokens' right) :
    Layered within (tier :: tighter) (tokens ++ operator :: tokens')
      (tier.node operator left right) := by
  cases hleft with
  | mk hfirst hoperations =>
      rw [List.append_assoc]
      exact .mk hfirst (hoperations.append hoperator hright)

/-- The tiers from a given one on. -/
theorem Tier.exists_suffix (tier : Tier) : ∃ tighter, tier :: tighter <:+ tiers := by
  cases tier <;> simp [tiers, List.suffix_cons_iff]

/-- What tiers from some one on derive, if they derive the operands of an operator and bind no more
tightly than it does. -/
theorem FitsAt.layered_node {tier : Tier} {operator : Token} {left right : Expr} {some : List Tier}
    (hleft : ∀ {tokens : List Token} {some : List Tier}, some <:+ tiers →
      FitsAt (unaryRank - some.length) limit tokens left → Layered within some tokens left)
    (hright : ∀ {tokens : List Token} {some : List Tier}, some <:+ tiers →
      FitsAt (unaryRank - some.length) limit tokens right → Layered within some tokens right)
    (hbeside : Beside tier operator left right) (hsome : some <:+ tiers)
    (h : FitsAt (unaryRank - some.length) limit tokens (tier.node operator left right)) :
    Layered within some tokens (tier.node operator left right) := by
  obtain ⟨tighter, hsuffix⟩ := tier.exists_suffix
  have hrank := Tier.rank_add_length hsuffix
  have htightness := h.rank_le
  rw [tightness_node hbeside.operator] at htightness
  obtain ⟨first, rest, hfirst, hrest, rfl⟩ := spelled_node_iff.1 h.exact.spelled
  have hoperands := (forall_inside_iff.1 h.exact.holds).2
  rw [operands_node] at hoperands
  obtain ⟨hleftHolds, hrightHolds⟩ := List.forall_mem_cons.1 hoperands
  have hnestings := h.nestings_le
  rw [nestings_node] at hnestings
  obtain ⟨hnestings, hnestings'⟩ := Nat.max_le.1 hnestings
  have hleftRank : unaryRank - (tier :: tighter).length ≤ left.tightness := by
    have hle := hbeside.left
    rw [List.length_cons]
    omega
  have hrightRank : unaryRank - tighter.length ≤ right.tightness := by
    have hlt := hbeside.right
    omega
  have hlayered : Layered within (tier :: tighter) (first ++ operator :: rest)
      (tier.node operator left right) :=
    (hleft hsuffix ⟨⟨hfirst, hleftHolds⟩, hnestings, hleftRank⟩).node hbeside.operator
      (hright ((List.suffix_cons _ _).trans hsuffix)
        ⟨⟨hrest, hrightHolds _ (List.mem_singleton.2 rfl)⟩, hnestings', hrightRank⟩)
  refine hlayered.mono_suffix (List.suffix_of_suffix_length_le hsuffix hsome ?_)
  rw [List.length_cons]
  omega

theorem FitsAt.layered (hwithin : within.Exact limit) (a : Expr) {tokens : List Token}
    {some : List Tier} (hsome : some <:+ tiers)
    (h : FitsAt (unaryRank - some.length) limit tokens a) : Layered within some tokens a := by
  rcases Nat.lt_or_ge a.tightness unaryRank with hlt | hge
  · cases a with
    | binary operator left right =>
        obtain ⟨tier, hnode, hbeside⟩ := exists_node_of_binary (h.exact.holds _ .refl).1
        rw [hnode] at h ⊢
        exact h.layered_node (FitsAt.layered hwithin left) (FitsAt.layered hwithin right) hbeside
          hsome
    | logical operator left right =>
        obtain ⟨tier, hnode, hbeside⟩ := exists_node_of_logical (h.exact.holds _ .refl).1
        rw [hnode] at h ⊢
        exact h.layered_node (FitsAt.layered hwithin left) (FitsAt.layered hwithin right) hbeside
          hsome
    | assign target value => exact absurd h.rank_le (not_rank_le_zero hsome)
    | set object name value => exact absurd h.rank_le (not_rank_le_zero hsome)
    | unary operator operand => exact absurd hlt (Nat.lt_irrefl _)
    | _ => exact absurd hlt (Nat.not_lt_of_le (Nat.le_succ unaryRank))
  · exact (FitsAt.unary hwithin { h with rank_le := hge }).layered some

/-- Only an assignment binds least of all. -/
theorem tightness_pos (hholds : a.HoldsOperands)
    (hassign : ∀ target value, a ≠ .assign target value)
    (hset : ∀ object name value, a ≠ .set object name value) : 0 < a.tightness := by
  have hrank (tier : Tier) : 0 < tier.rank := by
    cases tier <;> decide
  cases a with
  | binary operator left right =>
      obtain ⟨tier, hnode, hbeside⟩ := exists_node_of_binary hholds
      rw [hnode, tightness_node hbeside.operator]
      exact hrank tier
  | logical operator left right =>
      obtain ⟨tier, hnode, hbeside⟩ := exists_node_of_logical hholds
      rw [hnode, tightness_node hbeside.operator]
      exact hrank tier
  | assign target value => exact absurd rfl (hassign target value)
  | set object name value => exact absurd rfl (hset object name value)
  | _ => exact Nat.succ_pos _

theorem assignment_of_exact (hwithin : within.Exact limit) (h : a.Exact tokens)
    (hnestings : a.nestings ≤ limit) : Assignment within tokens a := by
  have hplain (hpos : 0 < a.tightness) : Assignment within tokens a :=
    .plain (FitsAt.layered hwithin a List.suffix_rfl ⟨h, hnestings, hpos⟩)
  obtain ⟨⟨hholds, -⟩, hoperands⟩ := forall_inside_iff.1 h.holds
  cases a with
  | assign target value =>
      obtain ⟨equal, rest, hname, hequal, hvalue, rfl⟩ := spelled_assign_iff.1 h.spelled
      have hexact : value.Exact rest := ⟨hvalue, hoperands _ (List.mem_singleton.2 rfl)⟩
      exact .toVariable hname hequal (hwithin.expression.2 ⟨hexact, hnestings⟩)
  | set object name value =>
      obtain ⟨first, dot, equal, rest, hobject, hdot, hname, hequal, hvalue, rfl⟩ :=
        spelled_set_iff.1 h.spelled
      obtain ⟨hobjectHolds, hvalueHolds⟩ := List.forall_mem_cons.1 hoperands
      obtain ⟨hnestings, hnestings'⟩ := Nat.max_le.1 hnestings
      have hexact : value.Exact rest := ⟨hvalue, hvalueHolds _ (List.mem_singleton.2 rfl)⟩
      have hcall := FitsAt.call hwithin object ⟨⟨hobject, hobjectHolds⟩, hnestings, hholds⟩
      exact .toProperty hcall hdot hname hequal (hwithin.expression.2 ⟨hexact, hnestings'⟩)
  | _ => exact hplain (tightness_pos hholds nofun nofun)

/-! ## Whole expressions -/

/-- What `n` nestings derive is put together as it should be, and the other way round. -/
theorem exact_phrases (n : Nat) : (phrases n).Exact n := by
  induction n with
  | zero =>
      exact {
        expression := ⟨False.elim, fun h => absurd h.2 (Nat.not_lt_zero _)⟩
        operand := ⟨False.elim, fun h => absurd h.1.2 (Nat.not_lt_zero _)⟩ }
  | succ n ih =>
      refine { expression := ⟨?_, ?_⟩, operand := ⟨?_, ?_⟩ }
      · intro h
        obtain ⟨hexact, hnestings⟩ := h.fitsAt ih
        exact ⟨hexact, Nat.lt_succ_of_le hnestings⟩
      · rintro ⟨hexact, hnestings⟩
        exact assignment_of_exact ih hexact (Nat.le_of_lt_succ hnestings)
      · intro h
        have hfits := h.fitsAt ih
        exact ⟨⟨hfits.exact, Nat.lt_succ_of_le hfits.nestings_le⟩, hfits.rank_le⟩
      · rintro ⟨⟨hexact, hnestings⟩, hrank⟩
        exact FitsAt.unary ih ⟨hexact, Nat.le_of_lt_succ hnestings, hrank⟩

theorem ensures_wholeExpression :
    Reading.Ensures wholeExpression fun cursor expression reached => reached.rest = [] ∧
      Yields (phrases nestingLimit).expression Expr.ids cursor expression reached := by
  have hsound := (sound_statements nestingLimit).toSound
  rw [statements_toInner] at hsound
  have hends : Reading.Ensures Reading.atEnd fun cursor b reached =>
      b = List.isEmpty cursor.rest ∧ reached = cursor := Reading.Ensures.atEnd
  refine (hsound.expression.bind fun expression => Reading.Ensures.bind_check hends
    (Reading.Ensures.stop .endOfExpression) (Reading.Ensures.pure expression)).mono ?_
  rintro cursor expression reached ⟨_, between, -, -, hyields, ⟨-, hfalse⟩ | ⟨hend, rfl, rfl⟩⟩
  · exact hfalse.elim
  · exact ⟨List.isEmpty_iff.1 hend, hyields⟩

end Grammar

/-- Tokens are read as an expression exactly if they are those that its tree tells of, all operands
in it bind as tightly as their places ask for, no call has too many arguments, and with itself there
are not too many nestings open at once. -/
theorem Expr.parse_eq_ok_iff_spelled (tokens : List Token) (endLine : Nat) (nextId : NodeId)
    (expression : Expr) :
    (∃ parsed, (Expr.parse tokens endLine nextId).result = .ok parsed ∧
      parsed.unnumbered = expression.unnumbered) ↔
    expression.Spelled tokens ∧ expression.Layered ∧ expression.Brief ∧
      expression.nestings + 1 ≤ nestingLimit := by
  have hderives : (phrases nestingLimit).expression tokens expression ↔
      expression.Spelled tokens ∧ expression.Layered ∧ expression.Brief ∧
        expression.nestings + 1 ≤ nestingLimit := by
    rw [(exact_phrases nestingLimit).expression]
    constructor
    · rintro ⟨⟨hspelled, hholds⟩, hnestings⟩
      exact ⟨hspelled, fun part hpart => (hholds part hpart).1,
        fun part hpart => (hholds part hpart).2, hnestings⟩
    · rintro ⟨hspelled, hlayered, hbrief, hnestings⟩
      exact ⟨⟨hspelled, fun part hpart => ⟨hlayered part hpart, hbrief part hpart⟩⟩, hnestings⟩
  rw [← hderives]
  constructor
  · rintro ⟨parsed, hparse, heq⟩
    obtain ⟨reached, hexec, hnoted, -⟩ := Parsed.exec_of_result_eq_ok hparse
    obtain ⟨hend, taken, hrest, hparsed, -⟩ := ensures_wholeExpression.yields hexec hnoted
    rw [hend, List.append_nil] at hrest
    obtain rfl : taken = tokens := hrest.symm
    exact (unnumbered_phrases nestingLimit).expression _ _ _ hparsed heq.symm
  · intro h
    exact Parsed.result_eq_ok_of_reads (reads_wholeExpression h)

end LoxLang
