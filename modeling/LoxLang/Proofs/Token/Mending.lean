import Mathlib.Data.List.Forall2
import LoxLang.Proofs.Token.Newlines
import LoxLang.Proofs.Token.Splitting

/-!
# Characters that start nothing

A character that starts no token is skipped alone: the text after it falls apart as if a space stood
in its place.  A space ends the lexeme before it just as the character did, because no lexeme goes
on over either of them, and neither of them ends a line.
-/

namespace LoxLang

/-! ## The places of stray characters -/

/-- The place of a stray character, if the span is one. -/
def Span.strayPlace? (span : Span) : Option Nat :=
  match span.piece with
  | .stray _ => some span.start
  | _ => none

/-- The places of the stray characters among successive pieces, the first of which starts at a given
place. -/
def Piece.strayPlacesFrom (start : Nat) (pieces : List Piece) : List Nat :=
  (spansFrom List.length start pieces).filterMap Span.strayPlace?

/-- The places of the characters of a text that start nothing. -/
def strayPlaces (text : List Char) : List Nat :=
  Piece.strayPlacesFrom 0 (Piece.pieces text)

/-- A text with a space for each character that starts nothing. -/
def mend (text : List Char) : List Char :=
  text.mapIdx fun place char => if place ∈ strayPlaces text then ' ' else char

/-- A text in which spaces may stand for characters that are no blanks. -/
def Mends : List Char → List Char → Prop :=
  List.Forall₂ fun char char' => char' = char ∨ isBlank char = false ∧ char' = ' '

namespace Mends

theorem refl (text : List Char) : Mends text text :=
  List.forall₂_same.2 fun _ _ => .inl rfl

theorem append {first first' second second' : List Char} (hfirst : Mends first first')
    (hsecond : Mends second second') : Mends (first ++ second) (first' ++ second') :=
  List.rel_append hfirst hsecond

/-- What is in front of the mended text and holds no blank was there before. -/
theorem prefix_of_prefix {text mended front : List Char} (h : Mends text mended)
    (hfront : front <+: mended) (hblank : ∀ char ∈ front, isBlank char = false) :
    front <+: text := by
  induction h generalizing front with
  | nil => exact hfront
  | @cons char char' text mended hchar _ ih =>
      cases front with
      | nil => exact List.nil_prefix
      | cons first front =>
          obtain ⟨rfl, hmore⟩ := List.cons_prefix_cons.1 hfront
          obtain ⟨hfirst, hrest⟩ := List.forall_mem_cons.1 hblank
          rcases hchar with rfl | ⟨-, rfl⟩
          · exact List.cons_prefix_cons.2 ⟨rfl, ih hmore hrest⟩
          · cases hfirst

/-- A newline stays a newline. -/
theorem head?_eq_newline {text mended : List Char} (h : Mends text mended)
    (hhead : ∀ char ∈ text.head?, char = '\n') : ∀ char ∈ mended.head?, char = '\n' := by
  intro char hchar
  cases h with
  | nil => cases hchar
  | cons hfirst _ =>
      obtain rfl := hhead _ rfl
      cases hchar
      rcases hfirst with rfl | ⟨hblank, -⟩
      · rfl
      · cases hblank

end Mends

namespace Piece

variable {piece : Piece} {after mended source : List Char} {pieces : List Piece}

/-- A space for a stray character. -/
def mend : Piece → Piece
  | stray _ => blank ' '
  | piece => piece

theorem mend_eq_self (h : ¬∃ char, piece = .stray char) : piece.mend = piece := by
  cases piece with
  | stray char => exact absurd ⟨char, rfl⟩ h
  | _ => rfl

/-- The mended piece is taken off the mended text. -/
theorem Munches.mend (h : piece.Munches after) (hmends : Mends after mended) :
    piece.mend.Munches mended := by
  cases h with
  | blank hblank => exact .blank hblank
  | comment hline hafter => exact .comment hline (hmends.head?_eq_newline hafter)
  | @lexeme kind text hlongest hcomment =>
      refine .lexeme ?_ ?_
      · -- What would make the lexeme longer holds no space, so it was there before.
        refine hlongest.1.longest_of_not_append fun other char more hmore hlonger => ?_
        have hblank := hlongest.1.isBlank_eq_false_of_append hlonger
        have hfront := (List.prefix_append_right_inj text).2 (hmends.prefix_of_prefix hmore hblank)
        have hlength := hlongest.2 other _ hlonger hfront
        rw [List.length_append, List.length_cons] at hlength
        omega
      · intro hslashes
        have hall := (Mends.refl text).append hmends
        exact hcomment (hall.prefix_of_prefix hslashes (by simp [isBlank]))
  | stray _ _ _ => exact .blank (by decide)
  | openString hinner hnil =>
      subst hnil
      cases hmends
      exact .openString hinner rfl

theorem Munches.mends_text (h : piece.Munches after) : Mends piece.text piece.mend.text := by
  cases h with
  | @stray char hblank _ _ =>
      have hfalse : isBlank char = false := by
        rwa [← isBlank_iff, Bool.not_eq_true] at hblank
      exact .cons (.inr ⟨hfalse, rfl⟩) .nil
  | _ => exact Mends.refl _

theorem Splits.mends (h : Splits source pieces) :
    Mends source ((pieces.map Piece.mend).flatMap text) := by
  induction h with
  | nil => exact .nil
  | cons hmunches _ ih => exact hmunches.mends_text.append ih

/-- The mended text falls apart into the mended pieces. -/
theorem Splits.mend (h : Splits source pieces) :
    Splits ((pieces.map Piece.mend).flatMap text) (pieces.map Piece.mend) := by
  induction h with
  | nil => exact .nil
  | cons hmunches hrest ih => exact .cons (hmunches.mend hrest.mends) ih

/-! ### Places -/

theorem strayPlacesFrom_cons (start : Nat) (piece : Piece) (rest : List Piece) :
    strayPlacesFrom start (piece :: rest) =
      (Span.strayPlace? ⟨piece, start, start + piece.text.length⟩).toList ++
        strayPlacesFrom (start + piece.text.length) rest := by
  rw [strayPlacesFrom, spansFrom, List.filterMap_cons, strayPlacesFrom]
  cases Span.strayPlace? ⟨piece, start, start + piece.text.length⟩ <;> rfl

theorem mem_strayPlacesFrom {start place : Nat} (h : place ∈ strayPlacesFrom start pieces) :
    start ≤ place ∧ place < start + (pieces.flatMap text).length := by
  induction pieces generalizing start with
  | nil => cases h
  | cons piece rest ih =>
      rw [strayPlacesFrom_cons] at h
      rw [List.flatMap_cons, List.length_append]
      rcases List.mem_append.1 h with hfirst | hrest
      · cases piece with
        | stray char =>
            obtain rfl := List.mem_singleton.1 hfirst
            refine ⟨Nat.le_refl _, ?_⟩
            show place < place + (1 + _)
            omega
        | _ => cases hfirst
      · have hlater := ih hrest
        omega

theorem pairwise_strayPlacesFrom (start : Nat) (pieces : List Piece) :
    (strayPlacesFrom start pieces).Pairwise (· < ·) := by
  induction pieces generalizing start with
  | nil => exact .nil
  | cons piece rest ih =>
      rw [strayPlacesFrom_cons]
      cases piece with
      | stray char =>
          refine .cons ?_ (ih _)
          intro place hplace
          exact (mem_strayPlacesFrom hplace).1
      | _ => exact ih _

/-- In the first piece there is a stray character only if the piece is one. -/
theorem add_mem_strayPlacesFrom {offset : Nat} (start : Nat) (rest : List Piece)
    (h : offset < piece.text.length) :
    start + offset ∈ strayPlacesFrom start (piece :: rest) ↔ ∃ char, piece = .stray char := by
  rw [strayPlacesFrom_cons, List.mem_append]
  have hlater : start + offset ∉ strayPlacesFrom (start + piece.text.length) rest := by
    intro hplace
    have hbound := (mem_strayPlacesFrom hplace).1
    omega
  cases piece with
  | stray char =>
      obtain rfl : offset = 0 := Nat.lt_one_iff.1 h
      exact iff_of_true (.inl List.mem_cons_self) ⟨char, rfl⟩
  | _ => simp [Span.strayPlace?, hlater]

/-- The other stray characters are those of the other pieces. -/
theorem add_length_mem_strayPlacesFrom (start place : Nat) (piece : Piece) (rest : List Piece) :
    start + (place + piece.text.length) ∈ strayPlacesFrom start (piece :: rest) ↔
      start + piece.text.length + place ∈ strayPlacesFrom (start + piece.text.length) rest := by
  have hsame : start + (place + piece.text.length) = start + piece.text.length + place := by
    omega
  rw [hsame, strayPlacesFrom_cons, List.mem_append]
  refine or_iff_right ?_
  cases piece with
  | stray char =>
      intro hplace
      have hstart : start + 1 + place = start := List.mem_singleton.1 hplace
      omega
  | _ => simp [Span.strayPlace?]

/-- Spaces at the places of the stray characters mend the first piece. -/
theorem mapIdx_text_strayPlacesFrom (start : Nat) (piece : Piece) (rest : List Piece) :
    (piece.text.mapIdx fun place char =>
        if start + place ∈ strayPlacesFrom start (piece :: rest) then ' ' else char) =
      piece.mend.text := by
  by_cases hstray : ∃ char, piece = .stray char
  · obtain ⟨char, rfl⟩ := hstray
    have hplace : start + 0 ∈ strayPlacesFrom start (.stray char :: rest) :=
      (add_mem_strayPlacesFrom start rest Nat.one_pos).2 ⟨char, rfl⟩
    exact congrArg (fun char => [char]) (if_pos hplace)
  · rw [mend_eq_self hstray]
    refine List.mapIdx_eq_iff.2 fun place => ?_
    by_cases hlength : place < piece.text.length
    · have hplace : start + place ∉ strayPlacesFrom start (piece :: rest) :=
        (add_mem_strayPlacesFrom start rest hlength).not.2 hstray
      simp [hplace]
    · simp [hlength]

/-- Spaces at the places of the stray characters mend all pieces. -/
theorem mapIdx_strayPlacesFrom (start : Nat) (pieces : List Piece) :
    ((pieces.flatMap text).mapIdx fun place char =>
        if start + place ∈ strayPlacesFrom start pieces then ' ' else char) =
      (pieces.map mend).flatMap text := by
  induction pieces generalizing start with
  | nil => rfl
  | cons piece rest ih =>
      rw [List.flatMap_cons, List.mapIdx_append, mapIdx_text_strayPlacesFrom, List.map_cons,
        List.flatMap_cons, ← ih (start + piece.text.length)]
      simp only [add_length_mem_strayPlacesFrom]

end Piece

theorem lt_length_of_mem_strayPlaces {text : List Char} {place : Nat}
    (h : place ∈ strayPlaces text) : place < text.length := by
  have hbound := (Piece.mem_strayPlacesFrom h).2
  rwa [Piece.text_pieces, Nat.zero_add] at hbound

/-- The pieces of a mended text are the mended pieces. -/
theorem pieces_mend (source : List Char) :
    Piece.pieces (mend source) = (Piece.pieces source).map Piece.mend := by
  have hsplits := Piece.splits_pieces source
  have hmapIdx := Piece.mapIdx_strayPlacesFrom 0 (Piece.pieces source)
  simp only [hsplits.flatMap_text, Nat.zero_add] at hmapIdx
  rw [mend, strayPlaces, hmapIdx]
  exact hsplits.mend.eq_pieces.symm

/-! ## Tokens and faults -/

/-- Whether an item reports a character that starts nothing. -/
def Item.isUnexpected : Item → Bool
  | token _ => false
  | fault found => found.cause == .unexpectedCharacter

namespace TokenStream

open Piece (Splits Munches strayPlacesFrom strayPlacesFrom_cons)

variable {source : List Char} {pieces : List Piece}

theorem newlines_text_mend {piece : Piece} {after : List Char} (h : piece.Munches after) :
    newlines piece.mend.text = newlines piece.text := by
  cases piece with
  | stray char => exact h.newlines_stray.symm
  | _ => rfl

/-- Mended pieces show what the pieces show, but for the reports of stray characters. -/
theorem itemsFrom_map_mend (h : Splits source pieces) (line : Nat) :
    itemsFrom line (pieces.map Piece.mend) =
      (itemsFrom line pieces).filter fun item => !item.isUnexpected := by
  induction h generalizing line with
  | nil => rfl
  | @cons piece after rest hmunches _ ih =>
      rw [List.map_cons, itemsFrom_cons, itemsFrom_cons, newlines_text_mend hmunches, ih,
        List.filter_append]
      congr 1
      cases piece <;> rfl

/-- Each stray character is reported once, with the line on which it stands. -/
theorem filter_itemsFrom (h : Splits source pieces) (before : List Char) :
    (itemsFrom (1 + newlines before) pieces).filter Item.isUnexpected =
      (strayPlacesFrom before.length pieces).map fun place =>
        .fault ⟨.unexpectedCharacter, 1 + newlines ((before ++ source).take place)⟩ := by
  induction h generalizing before with
  | nil => rfl
  | @cons piece after rest hmunches _ ih =>
      have hrest := ih (before ++ piece.text)
      rw [newlines_append, ← Nat.add_assoc, List.length_append, List.append_assoc] at hrest
      rw [itemsFrom_cons, List.filter_append, hrest, strayPlacesFrom_cons, List.map_append]
      congr 1
      cases piece with
      | stray char =>
          have hline : 1 + newlines before + newlines [char] =
              1 + newlines ((before ++ ([char] ++ after)).take before.length) := by
            rw [hmunches.newlines_stray, List.take_left]
            rfl
          exact congrArg (fun line => [Item.fault ⟨.unexpectedCharacter, line⟩]) hline
      | _ => rfl

theorem newlines_flatMap_mend (h : Splits source pieces) :
    newlines ((pieces.map Piece.mend).flatMap Piece.text) = newlines source := by
  induction h with
  | nil => rfl
  | cons hmunches _ ih =>
      rw [List.map_cons, List.flatMap_cons, newlines_append, newlines_append,
        newlines_text_mend hmunches, ih]

/-- Only stray characters are reported, and nothing within another piece. -/
theorem stray_of_mem_spansFrom {start place : Nat} {span : Span}
    (hspan : span ∈ Piece.spansFrom List.length start pieces)
    (hplace : place ∈ strayPlacesFrom start pieces) (hstart : span.start ≤ place)
    (hstop : place < span.stop) : ∃ char, span.piece = .stray char := by
  induction pieces generalizing start with
  | nil => cases hspan
  | cons piece rest ih =>
      rcases List.mem_cons.1 hspan with rfl | hrest
      · obtain ⟨offset, rfl⟩ := Nat.exists_eq_add_of_le hstart
        exact (Piece.add_mem_strayPlacesFrom start rest (Nat.lt_of_add_lt_add_left hstop)).1 hplace
      · have hlater := Piece.le_start_of_mem_spansFrom hrest
        obtain ⟨offset, rfl⟩ := Nat.exists_eq_add_of_le (hlater.trans hstart)
        rw [Nat.add_assoc, Nat.add_comm _ offset, Piece.add_length_mem_strayPlacesFrom] at hplace
        exact ih hrest hplace

theorem faults_map_fault (found : List LexicalFault) (endLine : Nat) :
    faults ⟨found.map .fault, endLine⟩ = found := by
  rw [faults, List.filterMap_map]
  exact List.filterMap_some

theorem tokens_filter_isUnexpected (items : List Item) (endLine : Nat) :
    tokens ⟨items.filter fun item => !item.isUnexpected, endLine⟩ = tokens ⟨items, endLine⟩ := by
  rw [tokens, tokens, List.filterMap_filter]
  congr 1
  funext item
  cases item with
  | token found => rfl
  | fault found => exact ite_self _

theorem faults_filter_isUnexpected (items : List Item) (endLine : Nat) :
    faults ⟨items.filter Item.isUnexpected, endLine⟩ =
      (faults ⟨items, endLine⟩).filter (·.cause == .unexpectedCharacter) := by
  rw [faults, faults, List.filterMap_filter, List.filter_filterMap]
  congr 1
  funext item
  cases item with
  | token found => rfl
  | fault found => rfl

theorem faults_filter_not_isUnexpected (items : List Item) (endLine : Nat) :
    faults ⟨items.filter fun item => !item.isUnexpected, endLine⟩ =
      (faults ⟨items, endLine⟩).filter (·.cause == .unterminatedString) := by
  rw [faults, faults, List.filterMap_filter, List.filter_filterMap]
  congr 1
  funext item
  cases item with
  | token found => rfl
  | fault found =>
      obtain ⟨cause, line⟩ := found
      cases cause <;> rfl

/-- A mended text shows what the text shows, but for the reports of stray characters. -/
theorem items_mend (source : List Char) :
    (ofChars (mend source)).items =
      (ofChars source).items.filter fun item => !item.isUnexpected := by
  rw [ofChars, pieces_mend]
  exact itemsFrom_map_mend (Piece.splits_pieces source) 1

/-- A mended text has the newlines of the text. -/
theorem newlines_mend (source : List Char) : newlines (mend source) = newlines source := by
  have hsplits := Piece.splits_pieces source
  rw [← Piece.text_pieces (mend source), pieces_mend, newlines_flatMap_mend hsplits]

/-- The reports of stray characters are those of their places. -/
theorem filter_faults (source : List Char) :
    (ofChars source).faults.filter (·.cause == .unexpectedCharacter) =
      (strayPlaces source).map fun place =>
        ⟨.unexpectedCharacter, 1 + newlines (source.take place)⟩ := by
  have hsplits := Piece.splits_pieces source
  have hreports : (ofChars source).items.filter Item.isUnexpected =
      ((strayPlaces source).map fun place =>
        ⟨.unexpectedCharacter, 1 + newlines (source.take place)⟩).map .fault := by
    rw [List.map_map]
    exact filter_itemsFrom hsplits []
  have hfaults := faults_filter_isUnexpected (ofChars source).items (ofChars source).endLine
  rw [hreports, faults_map_fault] at hfaults
  exact hfaults.symm

/-- Each character that starts nothing is reported once, with the line on which it stands, and none
within a comment, a string or a token is.  With spaces in their places the text has the same tokens
on the same lines, the same open string, and no other fault. -/
theorem stray_characters_are_local (source : String) :
    (ofSource source).faults.filter (·.cause == .unexpectedCharacter) =
      (strayPlaces source.toList).map (fun place =>
        ⟨.unexpectedCharacter, 1 + newlines (source.toList.take place)⟩) ∧
    (strayPlaces source.toList).Pairwise (· < ·) ∧
    (∀ place ∈ strayPlaces source.toList, place < source.toList.length) ∧
    (∀ span ∈ Piece.spans List.length source.toList, ∀ place ∈ strayPlaces source.toList,
      span.start ≤ place → place < span.stop → ∃ char, span.piece = .stray char) ∧
    let mended := ofSource (String.ofList (mend source.toList))
    mended.tokens = (ofSource source).tokens ∧
    mended.faults = (ofSource source).faults.filter (·.cause == .unterminatedString) ∧
    mended.endLine = (ofSource source).endLine := by
  refine ⟨filter_faults source.toList, Piece.pairwise_strayPlacesFrom 0 _, ?_, ?_, ?_⟩
  · intro place hplace
    exact lt_length_of_mem_strayPlaces hplace
  · intro span hspan place hplace hstart hstop
    exact stray_of_mem_spansFrom hspan hplace hstart hstop
  intro mended
  have hmended : mended = ofChars (mend source.toList) := by
    show ofChars (String.ofList (mend source.toList)).toList = ofChars (mend source.toList)
    rw [String.toList_ofList]
  let stream := ofChars source.toList
  rw [hmended]
  refine ⟨?_, ?_, ?_⟩
  · have htokens := tokens_filter_isUnexpected stream.items stream.endLine
    rw [← items_mend] at htokens
    exact htokens
  · have hfaults := faults_filter_not_isUnexpected stream.items stream.endLine
    rw [← items_mend] at hfaults
    exact hfaults
  · exact congrArg (1 + ·) (newlines_mend source.toList)

/-- Stray characters before and behind a comment, and an open string that holds one more. -/
example :
    strayPlaces "é#//#\n# \"#".toList = [0, 1, 6] ∧
      mend "é#//#\n# \"#".toList = "  //#\n  \"#".toList := by
  decide

end TokenStream

end LoxLang
