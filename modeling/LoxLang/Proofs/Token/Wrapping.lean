import Mathlib.Data.List.TakeWhile
import LoxLang.Proofs.Token.Joining

/-!
# Texts inside a statement

The tokens of a text with a word in front of it, or with a newline and another text behind it.  A
string that the text leaves open stays open if no quotation mark follows; so if the whole has no
faults, neither has the text.
-/

namespace LoxLang

namespace Piece

/-! ## Strings that stay open -/

theorem isOpen_number (first : Char) (rest : List Char) : (number first rest).1.isOpen = false := by
  unfold number
  dsimp only
  split
  · split <;> rfl
  · rfl

theorem isOpen_symbolOrStray (first : Char) (rest : List Char) :
    (symbolOrStray first rest).1.isOpen = false := by
  unfold symbolOrStray
  split
  · rfl
  · split <;> rfl

/-- Only a quotation mark opens a string. -/
theorem eq_quote_of_isOpen {first : Char} {rest : List Char} (h : (next first rest).1.isOpen) :
    first = '"' := by
  unfold next at h
  by_contra hquote
  have hother : ¬(first == '"') = true := by
    simpa using hquote
  rw [if_neg hother] at h
  split at h
  · cases h
  split at h
  · cases h
  split at h
  · rw [isOpen_number] at h
    cases h
  split at h
  · cases h
  · rw [isOpen_symbolOrStray] at h
    cases h

theorem next_quote (rest : List Char) : next '"' rest = quoted rest := rfl

/-- A string is left open exactly if no quotation mark follows. -/
theorem isOpen_quoted (rest : List Char) : (quoted rest).1.isOpen ↔ '"' ∉ rest := by
  have hdrop : rest.dropWhile (· != '"') = [] ↔ '"' ∉ rest := by
    rw [List.dropWhile_eq_nil_iff]
    constructor
    · intro h hmem
      simpa using h '"' hmem
    · intro h char hchar
      simp only [bne_iff_ne, ne_eq]
      rintro rfl
      exact h hchar
  rw [← hdrop]
  unfold quoted
  dsimp only
  split
  · next hnil => exact iff_of_true rfl hnil
  · next hcons => exact iff_of_false (by simp [isOpen]) (by simp [hcons])

theorem isOpen_next_append {first : Char} {rest : List Char} (more : List Char)
    (hmore : '"' ∉ more) (h : (next first rest).1.isOpen) :
    (next first (rest ++ more)).1.isOpen := by
  obtain rfl := eq_quote_of_isOpen h
  rw [next_quote, isOpen_quoted] at h ⊢
  intro hmem
  rcases List.mem_append.1 hmem with hrest | hmore'
  · exact h hrest
  · exact hmore hmore'

/-- A text that is followed by a newline and has no string open in the end has none open itself. -/
theorem isOpen_of_append_newline {source more : List Char} (hmore : '"' ∉ more)
    (h : ∀ piece ∈ pieces (source ++ '\n' :: more), piece.isOpen = false) :
    ∀ piece ∈ pieces source, piece.isOpen = false := by
  induction hlength : source.length using Nat.strongRecOn generalizing source with
  | ind length ih =>
      cases source with
      | nil =>
          intro piece hpiece
          cases hpiece
      | cons first rest =>
          rw [List.cons_append, pieces_cons] at h
          obtain ⟨hfirst, hrest⟩ := List.forall_mem_cons.1 h
          have hnewline : '"' ∉ '\n' :: more := by
            simpa using hmore
          have hclosed : (next first rest).1.isOpen = false := by
            by_contra hopen
            rw [Bool.not_eq_false] at hopen
            rw [isOpen_next_append _ hnewline hopen] at hfirst
            cases hfirst
          rw [next_append_newline rest more first hclosed] at hrest
          have hshorter : (next first rest).2.length < length := by
            rw [← hlength]
            exact Nat.lt_succ_of_le (length_next first rest)
          rw [pieces_cons]
          exact List.forall_mem_cons.2 ⟨hclosed, ih _ hshorter hrest rfl⟩

end Piece

namespace TokenStream

/-- A text has no faults if it has none with a newline and a text without quotation marks behind
it. -/
theorem faults_eq_nil_of_join {first second : String} (hquote : '"' ∉ second.toList)
    (h : (ofSource (first ++ "\n" ++ second)).faults = []) : (ofSource first).faults = [] := by
  have hopen := isOpen_of_faults_eq_nil h
  rw [toList_join] at hopen
  have hclosed := Piece.isOpen_of_append_newline hquote hopen
  have hitems : (ofSource (first ++ "\n" ++ second)).items =
      itemsFrom 1
        (Piece.pieces first.toList ++ Piece.blank '\n' :: Piece.pieces second.toList) := by
    rw [← Piece.pieces_append_newline _ _ hclosed, ← toList_join]
    rfl
  rw [faults, hitems, itemsFrom_append, List.filterMap_append] at h
  exact (List.append_eq_nil_iff.1 h).1

/-- The word `print` and a space in front of a text. -/
theorem ofSource_print (source : String) :
    let stream := ofSource source
    ofSource ("print " ++ source) =
      ⟨.token ⟨.keyword .printKw, "print", 1⟩ :: stream.items, stream.endLine⟩ := by
  intro stream
  have hpieces : Piece.pieces ("print " ++ source).toList =
      .lexeme (.keyword .printKw) "print".toList :: .blank ' ' :: Piece.pieces source.toList := by
    rw [String.toList_append]
    exact (Piece.pieces_cons _ _).trans (congrArg _ (Piece.pieces_cons _ _))
  have hnewlines : newlines ("print " ++ source).toList = newlines source.toList := by
    rw [String.toList_append, newlines_append]
    exact Nat.zero_add _
  show TokenStream.mk (itemsFrom 1 (Piece.pieces ("print " ++ source).toList)) _ = _
  rw [hpieces, hnewlines]
  rfl

end TokenStream

end LoxLang
