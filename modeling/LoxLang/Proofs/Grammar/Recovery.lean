import Mathlib.Order.Bounds.Defs
import LoxLang.Proofs.Grammar.Relaxed.Program

/-!
# Where reading goes on after a fault

A fault that stops a declaration lies at the token in front of which reading stands then.  Reading
goes on at the nearest boundary of statements, but it passes over the token at which the fault lies
even if this starts a statement.  So a statement that is broken off by the first word of another one
takes that word with it.
-/

namespace LoxLang

namespace Grammar

open Reading Relaxed

/-- Whether a statement may start behind the first `k` tokens: in front of a token that starts one
for sure, behind a semicolon, or at the end. -/
def IsBoundary (tokens : List Token) (k : Nat) : Prop :=
  tokens[k]?.any startsStatement ∨ (0 < k ∧ tokens[k - 1]?.any (·.isSymbol .semicolon)) ∨
    k = tokens.length

variable {token : Token} {tokens : List Token} {k : Nat}

theorem isBoundary_succ_iff (hk : 0 < k) :
    IsBoundary (token :: tokens) (k + 1) ↔ IsBoundary tokens k := by
  obtain ⟨j, rfl⟩ := Nat.exists_eq_succ_of_ne_zero (Nat.ne_of_gt hk)
  simp [IsBoundary]

/-- A boundary behind the next token. -/
theorem isBoundary_one_iff :
    IsBoundary (token :: tokens) 1 ↔
      tokens.head?.any startsStatement ∨ token.isSymbol .semicolon ∨ tokens = [] := by
  cases tokens <;> simp [IsBoundary]

/-- In front of a token that does not start a statement there is no boundary. -/
theorem not_isBoundary_zero (htokens : tokens ≠ [])
    (hstart : tokens.head?.any startsStatement = false) : ¬IsBoundary tokens 0 := by
  rintro (hzero | ⟨hlt, -⟩ | hlength)
  · rw [← List.head?_eq_getElem?, hstart] at hzero
    cases hzero
  · exact absurd hlt (Nat.lt_irrefl 0)
  · exact htokens (List.eq_nil_of_length_eq_zero hlength.symm)

/-- Reading goes on at the first boundary behind the next token. -/
theorem resume_eq_drop (tokens : List Token) :
    ∃ k, resume tokens = tokens.drop k ∧
      IsLeast {k | IsBoundary tokens k ∧ (tokens = [] ∨ 0 < k)} k := by
  fun_induction resume tokens with
  | case1 => exact ⟨0, rfl, ⟨.inr (.inr rfl), .inl rfl⟩, fun _ _ => Nat.zero_le _⟩
  | case2 token rest hsemicolon =>
      refine ⟨1, rfl, ⟨isBoundary_one_iff.2 (.inr (.inl hsemicolon)), .inr Nat.one_pos⟩, ?_⟩
      rintro k ⟨-, hnil | hk⟩
      · cases hnil
      · exact hk
  | case3 token hsemicolon =>
      refine ⟨1, rfl, ⟨isBoundary_one_iff.2 (.inr (.inr rfl)), .inr Nat.one_pos⟩, ?_⟩
      rintro k ⟨-, hnil | hk⟩
      · cases hnil
      · exact hk
  | case4 token next rest hsemicolon hstart =>
      refine ⟨1, rfl, ⟨isBoundary_one_iff.2 (.inl hstart), .inr Nat.one_pos⟩, ?_⟩
      rintro k ⟨-, hnil | hk⟩
      · cases hnil
      · exact hk
  | case5 token hsemicolon next rest hstart ih =>
      obtain ⟨k, hdrop, ⟨hboundary, hk⟩, hleast⟩ := ih
      replace hk : 0 < k := hk.resolve_left (List.cons_ne_nil _ _)
      refine ⟨k + 1, hdrop, ⟨(isBoundary_succ_iff hk).2 hboundary, .inr (Nat.succ_pos k)⟩, ?_⟩
      rintro j ⟨hj, hnil | hpos⟩
      · cases hnil
      · obtain ⟨j, rfl⟩ := Nat.exists_eq_succ_of_ne_zero (Nat.ne_of_gt hpos)
        rcases Nat.eq_zero_or_pos j with rfl | hj'
        · rcases isBoundary_one_iff.1 hj with hnext | hthis | hnil
          · exact absurd hnext hstart
          · exact absurd hthis hsemicolon
          · cases hnil
        · exact Nat.succ_le_succ (hleast ⟨(isBoundary_succ_iff hj').1 hj, .inr hj'⟩)

/-- A declaration that a fault stops is left out, and the fault is noted. -/
theorem exec_declaration_of_error {inner : Enclosed} {cursor reached : Cursor}
    {fault : SyntaxFault}
    (hexec : exec (declarationOrFault inner) cursor = (.error fault, reached)) :
    exec (declaration inner) cursor =
      (.ok none, { reached with
        rest := resume reached.rest
        noted := fault :: reached.noted }) := by
  rw [declaration, exec_tryCatch, map_eq_pure_bind, exec_bind, hexec]
  rfl

/-- A fault that stops a declaration lies at the token in front of which reading stands.  Reading
goes on at the first boundary behind that token; this is the first boundary at all unless the token
itself starts a statement. -/
theorem declaration_resumes_at_boundary {n : Nat} {cursor reached : Cursor} {fault : SyntaxFault}
    (hexec : exec (declarationOrFault (statements n)) cursor = (.error fault, reached)) :
    fault.place = reached.place ∧
    ∃ k, exec (declaration (statements n)) cursor =
        (.ok none, { reached with
          rest := reached.rest.drop k
          noted := fault :: reached.noted }) ∧
      IsLeast {k | IsBoundary reached.rest k ∧ (reached.rest = [] ∨ 0 < k)} k ∧
      (reached.rest.head?.any startsStatement = false →
        IsLeast {k | IsBoundary reached.rest k} k) := by
  have htracks : Tracks (Derives [.phrase .declaration]) (declarationOrFault (statements n))
      (Derives []) cursor :=
    tracks_declarationOrFault (parses_statements n) (.of_ends .nil)
  have hplace := htracks.place fault (by rw [hexec])
  rw [hexec] at hplace
  obtain ⟨k, hdrop, hboundary, hleast⟩ := resume_eq_drop reached.rest
  refine ⟨hplace, k, ?_, ⟨hboundary, hleast⟩, fun hstart => ⟨hboundary.1, fun j hj => ?_⟩⟩
  · rw [exec_declaration_of_error hexec, hdrop]
  · by_cases hnil : reached.rest = []
    · exact hleast ⟨hj, .inl hnil⟩
    · refine hleast ⟨hj, .inr (Nat.pos_of_ne_zero ?_)⟩
      rintro rfl
      exact not_isBoundary_zero hnil hstart hj

/-- `x print ( ;` -/
def brokenOff : List Token :=
  [.named "x" 1, ⟨.keyword .printKw, "print", 1⟩, ⟨.symbol .leftParen, "(", 1⟩,
    ⟨.symbol .semicolon, ";", 1⟩]

/-- The expression `x` stops in front of `print`. -/
theorem exec_declarationOrFault_brokenOff :
    exec (declarationOrFault (statements nestingLimit)) (Parsed.start brokenOff 1 0) =
      (.error ⟨.semicolonAfterExpression, .token ⟨.keyword .printKw, "print", 1⟩⟩,
        { Parsed.start (brokenOff.drop 1) 1 0 with nextId := 1 }) := rfl

/-- `x y ;` -/
def runTogether : List Token :=
  [.named "x" 1, .named "y" 1, ⟨.symbol .semicolon, ";", 1⟩]

/-- The expression `x` stops in front of `y`, which starts no statement for sure. -/
theorem exec_declarationOrFault_runTogether :
    exec (declarationOrFault (statements nestingLimit)) (Parsed.start runTogether 1 0) =
      (.error ⟨.semicolonAfterExpression, .token (.named "y" 1)⟩,
        { Parsed.start (runTogether.drop 1) 1 0 with nextId := 1 }) := rfl

theorem declaration_resumes_brokenOff :
    (∃ k, exec (declaration (statements nestingLimit)) (Parsed.start brokenOff 1 0) =
        (.ok none, { Parsed.start ((brokenOff.drop 1).drop k) 1 0 with
          noted := [⟨.semicolonAfterExpression, .token ⟨.keyword .printKw, "print", 1⟩⟩]
          nextId := 1 }) ∧
      IsLeast {k | IsBoundary (brokenOff.drop 1) k ∧ (brokenOff.drop 1 = [] ∨ 0 < k)} k) ∧
    (runTogether.drop 1).head?.any startsStatement = false ∧
    ∃ k, exec (declaration (statements nestingLimit)) (Parsed.start runTogether 1 0) =
        (.ok none, { Parsed.start ((runTogether.drop 1).drop k) 1 0 with
          noted := [⟨.semicolonAfterExpression, .token (.named "y" 1)⟩]
          nextId := 1 }) ∧
      IsLeast {k | IsBoundary (runTogether.drop 1) k} k := by
  have hstart : (runTogether.drop 1).head?.any startsStatement = false := rfl
  obtain ⟨-, k, hexec, hleast, -⟩ :=
    declaration_resumes_at_boundary exec_declarationOrFault_brokenOff
  obtain ⟨-, k', hexec', -, hfirst⟩ :=
    declaration_resumes_at_boundary exec_declarationOrFault_runTogether
  exact ⟨⟨k, hexec, hleast⟩, hstart, k', hexec', hfirst hstart⟩

/-- Reading does not go on in front of `print`, although a statement starts there. -/
theorem not_declaration_resumes_at_first_boundary :
    ¬∀ (n : Nat) (cursor reached : Cursor) (fault : SyntaxFault),
      exec (declarationOrFault (statements n)) cursor = (.error fault, reached) →
      fault.cause ≠ .nesting →
      ∃ k, (exec (declaration (statements n)) cursor).2.rest = reached.rest.drop k ∧
        IsLeast {k | IsBoundary reached.rest k} k := by
  intro h
  obtain ⟨k, hrest, -, hleast⟩ := h _ _ _ _ exec_declarationOrFault_brokenOff (by decide)
  have hzero : IsBoundary (brokenOff.drop 1) 0 := .inl rfl
  obtain rfl : k = 0 := Nat.le_zero.1 (hleast hzero)
  cases hrest

end Grammar

end LoxLang
