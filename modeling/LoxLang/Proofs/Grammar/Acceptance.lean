import LoxLang.Proofs.Grammar.Complete.Program
import LoxLang.Proofs.Grammar.Renumbering
import LoxLang.Proofs.Grammar.Sound.Program

/-!
# The parser accepts the grammar

Reading a program succeeds exactly if its tokens stand for a program, and yields that program up to
the numbers of its occurrences.  The two directions come from the account of the rules in the
modules on soundness and completeness; a fault that is noted on the way turns up in the result.
-/

namespace LoxLang

open Grammar

namespace Parsed

variable {α γ : Type} {rule : Reading α} {tokens : List Token} {endLine : Nat} {nextId : NodeId}

/-- Where reading starts. -/
def start (tokens : List Token) (endLine : Nat) (nextId : NodeId) : Cursor :=
  { rest := tokens, endLine := endLine, noted := [], nextId := nextId }

theorem ofReading_eq (rule : Reading α) (tokens : List Token) (endLine : Nat) (nextId : NodeId) :
    ofReading rule tokens endLine nextId =
      match rule.exec (start tokens endLine nextId) with
      | (.ok tree, cursor) =>
          if cursor.noted.isEmpty then
            ⟨.ok tree, cursor.nextId⟩
          else
            ⟨.error cursor.noted.reverse, cursor.nextId⟩
      | (.error fault, cursor) => ⟨.error (fault :: cursor.noted).reverse, cursor.nextId⟩ := rfl

/-- The faults that stand in the way of a tree. -/
def faults (parsed : Parsed α) : List SyntaxFault :=
  match parsed.result with
  | .ok _ => []
  | .error faults => faults

/-- A tree is only yielded if no fault has been noted. -/
theorem exec_of_result_eq_ok {a : α} (h : (ofReading rule tokens endLine nextId).result = .ok a) :
    ∃ reached, rule.exec (start tokens endLine nextId) = (.ok a, reached) ∧ reached.noted = [] ∧
      (ofReading rule tokens endLine nextId).nextId = reached.nextId := by
  rw [ofReading_eq] at h ⊢
  rcases hexec : rule.exec (start tokens endLine nextId) with ⟨fault | b, reached⟩
  · rw [hexec] at h
    cases h
  · rw [hexec] at h
    by_cases hnoted : reached.noted.isEmpty
    · simp only [hnoted, if_true, Except.ok.injEq] at h ⊢
      exact ⟨reached, h ▸ rfl, List.isEmpty_iff.1 hnoted, rfl⟩
    · simp [hnoted] at h

theorem result_eq_ok_of_reads {view : α → γ} {a : α} (h : rule.Reads view tokens [] a) :
    ∃ b, (ofReading rule tokens endLine nextId).result = .ok b ∧ view b = view a := by
  have hrest : (start tokens endLine nextId).rest = tokens ++ [] := (List.append_nil _).symm
  obtain ⟨b, reached, hexec, hview, -, hnoted⟩ := h _ hrest
  refine ⟨b, ?_, hview⟩
  have hempty : reached.noted.isEmpty := by
    rw [hnoted]
    rfl
  rw [ofReading_eq, hexec]
  simp only [hempty, if_true]

/-- No text is rejected without a fault. -/
theorem ne_nil_of_result_eq_error {faults : List SyntaxFault}
    (h : (ofReading rule tokens endLine nextId).result = .error faults) : faults ≠ [] := by
  rw [ofReading_eq] at h
  rcases hexec : rule.exec (start tokens endLine nextId) with ⟨fault | b, reached⟩
  · simp only [hexec, Except.error.injEq] at h
    exact h ▸ by simp
  · rw [hexec] at h
    by_cases hnoted : reached.noted.isEmpty
    · simp [hnoted] at h
    · simp only [hnoted, Bool.false_eq_true, if_false, Except.error.injEq] at h
      rw [← h]
      simpa using hnoted

theorem le_nextId {post : Cursor → α → Cursor → Prop} (h : rule.Ensures post) :
    nextId ≤ (ofReading rule tokens endLine nextId).nextId := by
  have hreaches := (h.reaches (start tokens endLine nextId)).nextId
  rw [ofReading_eq]
  rcases hexec : rule.exec (start tokens endLine nextId) with ⟨fault | b, reached⟩
  · rwa [hexec] at hreaches
  · rw [hexec] at hreaches
    simp only
    split
    · exact hreaches
    · exact hreaches

end Parsed

namespace Program

variable {tokens : List Token} {endLine : Nat} {nextId : NodeId}

/-- What is read is derived by the tokens, and its occurrences have got fresh numbers. -/
theorem derives_of_parse_eq_ok {program : Program}
    (h : (parse tokens endLine nextId).result = .ok program) :
    Program.Derives tokens program ∧
      Fresh nextId (parse tokens endLine nextId).nextId (Stmt.idsAll program) := by
  obtain ⟨reached, hexec, hnoted, hnextId⟩ := Parsed.exec_of_result_eq_ok h
  obtain ⟨hend, taken, hrest, hderives, hfresh⟩ := ensures_program.yields hexec hnoted
  rw [hend, List.append_nil] at hrest
  obtain rfl : taken = tokens := hrest.symm
  refine ⟨hderives, ?_⟩
  rw [parse, hnextId]
  exact hfresh

theorem le_nextId_parse (tokens : List Token) (endLine : Nat) (nextId : NodeId) :
    nextId ≤ (parse tokens endLine nextId).nextId :=
  Parsed.le_nextId ensures_program

/-- Tokens are read as a program exactly if they stand for it.  Exactly if they stand for none, at
least one fault is reported instead. -/
theorem parse_eq_ok_iff_derives (tokens : List Token) (endLine : Nat) (nextId : NodeId) :
    (∀ program : Program,
      (∃ parsed, (parse tokens endLine nextId).result = .ok parsed ∧
        parsed.unnumbered = program.unnumbered) ↔ Program.Derives tokens program) ∧
    ((∃ faults, (parse tokens endLine nextId).result = .error faults ∧ faults ≠ []) ↔
      ∀ program : Program, ¬Program.Derives tokens program) := by
  refine ⟨fun program => ⟨?_, ?_⟩, ?_, ?_⟩
  · rintro ⟨parsed, hparse, heq⟩
    exact (derives_of_parse_eq_ok hparse).1.renumber heq.symm
  · intro hderives
    exact Parsed.result_eq_ok_of_reads (reads_program hderives)
  · rintro ⟨faults, hfaults, -⟩ program hderives
    obtain ⟨parsed, hparse, -⟩ := Parsed.result_eq_ok_of_reads (reads_program hderives)
    cases hfaults.symm.trans hparse
  · intro hnone
    cases hresult : (parse tokens endLine nextId).result with
    | ok parsed => exact absurd (derives_of_parse_eq_ok hresult).1 (hnone parsed)
    | error faults => exact ⟨faults, rfl, Parsed.ne_nil_of_result_eq_error hresult⟩

end Program

end LoxLang
