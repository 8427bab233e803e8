import LoxLang.Proofs.Grammar.FaultCount
import LoxLang.Proofs.Grammar.Walk.Rules

/-!
# Reading by index is safe

A text is read by index to the same end as by cursor, so no look ever falls outside the list of
tokens and every loop and recursion is over in time.
-/

namespace LoxLang

/-- A walker whose trail leads to its place, stays inside a list of tokens and never goes back, and
that every declaration in front of a token has taken past a token at least. -/
structure Walker.Keeps (walker : Walker) (tokens : List Token) : Prop where
  arrival : walker.trail.head? = some walker.current
  inside : ∀ index ∈ walker.trail, index ≤ tokens.length
  onward : walker.trail.Pairwise (· ≥ ·)
  progress : ∀ span ∈ walker.declarations, span.1 < tokens.length → span.1 < span.2

namespace Walk

variable {α : Type} {walk : Walk α} {rule : Reading α}

theorem orderly_start (tokens : List Token) (endLine : Nat) (nextId : NodeId) :
    (start tokens endLine nextId).Orderly where
  inside := Nat.zero_le _
  arrival := rfl
  onward := List.pairwise_singleton _ _
  progress := by simp [start]

theorem parse_of_follows (tokens : List Token)
    (h : Follows nestingLimit tokens.length walk rule) (endLine : Nat) (nextId : NodeId) :
    ∃ walker, parse walk tokens endLine nextId =
      (.ok (.ofReading rule tokens endLine nextId), walker) ∧ walker.Keeps tokens := by
  have hstart : (start tokens endLine nextId).cursor = Parsed.start tokens endLine nextId := rfl
  have hagrees := h (start tokens endLine nextId) (orderly_start tokens endLine nextId)
    (Nat.zero_add _) (Nat.le_refl _)
  rw [hstart] at hagrees
  rw [parse, Parsed.ofReading_eq]
  rcases hwalk : exec walk (start tokens endLine nextId) with ⟨result, walker⟩
  rcases hread : Reading.exec rule (Parsed.start tokens endLine nextId) with ⟨fault | tree, cursor⟩
  all_goals
    rw [hwalk, hread] at hagrees
    obtain ⟨hresult, rfl, horderly, htokens, -, -⟩ := hagrees
    replace htokens : walker.tokens = tokens := htokens
    have hkeeps : walker.Keeps tokens :=
      { arrival := horderly.arrival
        inside := fun index hindex =>
          (horderly.trail_le index hindex).trans (htokens ▸ horderly.inside)
        onward := horderly.onward
        progress := htokens ▸ horderly.progress }
    refine ⟨walker, ?_, hkeeps⟩
  · obtain rfl : result = .error (.fault fault) := hresult
    rfl
  · obtain rfl : result = .ok tree := hresult
    dsimp only [Walker.cursor]
    split <;> rfl

end Walk

/-- Programs and single expressions are read without a look outside the list of tokens, without
going back, and with every declaration going past a token unless it starts at the end; and no more
faults are found than there are tokens, with the end of the text as one of them. -/
theorem Grammar.reading_is_safe (tokens : List Token) (endLine : Nat) (nextId : NodeId) :
    (∃ walker, Walk.parse Walk.program tokens endLine nextId =
        (.ok (Program.parse tokens endLine nextId), walker) ∧ walker.Keeps tokens) ∧
      (∃ walker, Walk.parse Walk.wholeExpression tokens endLine nextId =
        (.ok (Expr.parse tokens endLine nextId), walker) ∧ walker.Keeps tokens) ∧
      (Program.parse tokens endLine nextId).faults.length ≤ tokens.length + 1 ∧
      (Expr.parse tokens endLine nextId).faults.length ≤ tokens.length + 1 :=
  ⟨Walk.parse_of_follows tokens Walk.follows_program endLine nextId,
    Walk.parse_of_follows tokens Walk.follows_wholeExpression endLine nextId,
    Parsed.length_faults_le owes_program tokens endLine nextId,
    Parsed.length_faults_le owes_wholeExpression tokens endLine nextId⟩

end LoxLang
