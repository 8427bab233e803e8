import LoxLang.Proofs.Token.Joining
import LoxLang.Proofs.Token.Munch

/-!
# Newlines before a place

A source text is a sequence of bytes, and the line of a place in it is one more than the number of
newline bytes before the place.  A token is on the line of the place behind its text, a character
that starts nothing on the line of the place before it, and what the end of the text breaks off is
on the line of that end.
-/

namespace LoxLang

/-! ## Counting bytes -/

/-- How many newlines a sequence of bytes holds. -/
def newlineBytes (bytes : ByteArray) : Nat :=
  bytes.data.count 0x0a

/-- The line of a place in a sequence of bytes. -/
def lineAt (bytes : ByteArray) (place : Nat) : Nat :=
  1 + newlineBytes (bytes.extract 0 place)

theorem newlineBytes_append (first second : ByteArray) :
    newlineBytes (first ++ second) = newlineBytes first + newlineBytes second := by
  rw [newlineBytes, ByteArray.data_append, Array.count_append]
  rfl

/-- The encoding of a character beyond ASCII has no ASCII byte. -/
theorem le_toNat_of_mem_utf8EncodeChar {char : Char} (h : 127 < char.val.toNat) {byte : UInt8}
    (hbyte : byte ∈ String.utf8EncodeChar char) : 128 ≤ byte.toNat := by
  have hmore (value : Nat) (hlow : 128 ≤ value) (hhigh : value < 256) :
      128 ≤ (UInt8.ofNat value).toNat := by
    rwa [UInt8.toNat_ofNat', Nat.mod_eq_of_lt hhigh]
  unfold String.utf8EncodeChar at hbyte
  dsimp only at hbyte
  rw [if_neg (Nat.not_le_of_lt h)] at hbyte
  split_ifs at hbyte <;> simp only [List.mem_cons, List.not_mem_nil, or_false] at hbyte
  · rcases hbyte with rfl | rfl <;> apply hmore <;> omega
  · rcases hbyte with rfl | rfl | rfl <;> apply hmore <;> omega
  · rcases hbyte with rfl | rfl | rfl | rfl <;> apply hmore <;> omega

/-- The only character with a newline byte in its encoding is the newline. -/
theorem count_utf8EncodeChar (char : Char) :
    (String.utf8EncodeChar char).count 0x0a = [char].count '\n' := by
  by_cases hnewline : char = '\n'
  · subst hnewline
    rfl
  have hnone : '\n' ∉ [char] := by
    simpa using Ne.symm hnewline
  rw [List.count_eq_zero.2 hnone, List.count_eq_zero]
  intro hbyte
  by_cases hsmall : char.val.toNat ≤ 127
  · have hencode : String.utf8EncodeChar char = [UInt8.ofNat char.val.toNat] := if_pos hsmall
    rw [hencode, List.mem_singleton] at hbyte
    have hvalue := congrArg UInt8.toNat hbyte
    rw [UInt8.toNat_ofNat', Nat.mod_eq_of_lt (by omega)] at hvalue
    exact hnewline (Char.toNat_inj.1 hvalue.symm)
  · have hlarge := le_toNat_of_mem_utf8EncodeChar (Nat.lt_of_not_le hsmall) hbyte
    exact absurd hlarge (by decide)

/-- A text has as many newline bytes as newlines. -/
theorem newlineBytes_toUTF8 (text : List Char) :
    newlineBytes (String.ofList text).toUTF8 = newlines text := by
  have hencode (text : List Char) : (String.ofList text).toUTF8 = text.utf8Encode :=
    String.toByteArray_ofList
  induction text with
  | nil => rfl
  | cons char rest ih =>
      have hchar : newlineBytes [char].utf8Encode = newlines [char] := by
        rw [newlineBytes, List.utf8Encode_singleton, List.data_toByteArray, List.count_toArray]
        exact count_utf8EncodeChar char
      rw [hencode] at ih ⊢
      rw [List.utf8Encode_cons, newlineBytes_append, hchar, ih, newlines, newlines, newlines,
        ← List.count_append, List.singleton_append]

/-- How many bytes a text takes. -/
def byteSize (text : List Char) : Nat :=
  (String.ofList text).utf8ByteSize

theorem byteSize_append (first second : List Char) :
    byteSize (first ++ second) = byteSize first + byteSize second := by
  rw [byteSize, String.ofList_append, String.utf8ByteSize_append]
  rfl

/-- The line of the place between two parts of a text. -/
theorem lineAt_append (before after : List Char) :
    lineAt (String.ofList (before ++ after)).toUTF8 (byteSize before) = 1 + newlines before := by
  have hextract : (String.ofList (before ++ after)).toUTF8.extract 0 (0 + byteSize before) =
      (String.ofList before).toUTF8 := extract_toUTF8 [] before after
  rw [lineAt, ← newlineBytes_toUTF8, ← hextract, Nat.zero_add]

/-- The line of the end of a text. -/
theorem lineAt_size (text : List Char) :
    lineAt (String.ofList text).toUTF8 (String.ofList text).toUTF8.size = 1 + newlines text := by
  have hend := lineAt_append text []
  rw [List.append_nil] at hend
  exact hend

/-! ## Places of pieces -/

/-- A piece, with the places where its text starts and ends. -/
structure Span where
  piece : Piece
  start : Nat
  stop : Nat

/-- The spans of successive pieces, the first of which starts at a given place. -/
def Piece.spansFrom (size : List Char → Nat) (start : Nat) : List Piece → List Span
  | [] => []
  | piece :: rest =>
      ⟨piece, start, start + size piece.text⟩ :: spansFrom size (start + size piece.text) rest

/-- The spans of a text. -/
def Piece.spans (size : List Char → Nat) (source : List Char) : List Span :=
  spansFrom size 0 (pieces source)

/-- What a span of a source text shows: the place where it ends tells the line of a token, the place
where it starts that of a character that starts nothing, and the end of the source that of an open
string. -/
def Span.item? (source : ByteArray) (span : Span) : Option Item :=
  match span.piece with
  | .blank _ => none
  | .comment _ => none
  | .lexeme kind text => some (.token ⟨kind, String.ofList text, lineAt source span.stop⟩)
  | .stray _ => some (.fault ⟨.unexpectedCharacter, lineAt source span.start⟩)
  | .openString _ => some (.fault ⟨.unterminatedString, lineAt source source.size⟩)

/-- The line of a token or fault. -/
def Item.line : Item → Nat
  | token found => found.line
  | fault found => found.line

namespace Piece

variable {piece : Piece} {after : List Char}

/-- A character that starts nothing is no newline. -/
theorem Munches.newlines_stray {char : Char} (h : (Piece.stray char).Munches after) :
    newlines [char] = 0 := by
  cases h with
  | stray hblank _ _ =>
      refine List.count_eq_zero.2 ?_
      rintro hnewline
      obtain rfl := List.mem_singleton.1 hnewline
      exact hblank (by decide)

/-- The line counted while the pieces are taken off is that of the place. -/
theorem Munches.item?_span (h : piece.Munches after) (before : List Char) :
    Span.item? (String.ofList (before ++ (piece.text ++ after))).toUTF8
        ⟨piece, byteSize before, byteSize before + byteSize piece.text⟩ =
      piece.item? (1 + newlines before + newlines piece.text) := by
  have hstop : lineAt (String.ofList (before ++ (piece.text ++ after))).toUTF8
      (byteSize before + byteSize piece.text) = 1 + newlines before + newlines piece.text := by
    have hline := lineAt_append (before ++ piece.text) after
    rwa [List.append_assoc, byteSize_append, newlines_append, ← Nat.add_assoc] at hline
  cases h with
  | blank _ => rfl
  | comment _ _ => rfl
  | lexeme _ _ => rw [Span.item?, hstop, item?]
  | @stray char hblank hquote hnone =>
      have hstart := lineAt_append before ([char] ++ after)
      have hsame := (Munches.stray hblank hquote hnone).newlines_stray
      rw [← Nat.add_zero (1 + newlines before), ← hsame] at hstart
      exact congrArg (fun line => some (Item.fault ⟨.unexpectedCharacter, line⟩)) hstart
  | @openString inner _ hnil =>
      subst hnil
      let source := (String.ofList (before ++ ('"' :: inner ++ []))).toUTF8
      have hend : lineAt source source.size =
          1 + newlines before + newlines ('"' :: inner) := by
        rw [lineAt_size, newlines_append, ← Nat.add_assoc, List.append_nil]
      exact congrArg (fun line => some (Item.fault ⟨.unterminatedString, line⟩)) hend

/-- The items of pieces are those of their spans in the text. -/
theorem Splits.itemsFrom_eq {rest : List Char} {pieces : List Piece} (h : Splits rest pieces)
    (before : List Char) :
    TokenStream.itemsFrom (1 + newlines before) pieces =
      (spansFrom byteSize (byteSize before) pieces).filterMap
        (Span.item? (String.ofList (before ++ rest)).toUTF8) := by
  induction h generalizing before with
  | nil => rfl
  | @cons piece after rest hmunches _ ih =>
      have hrest := ih (before ++ piece.text)
      rw [newlines_append, byteSize_append, List.append_assoc, ← Nat.add_assoc] at hrest
      rw [TokenStream.itemsFrom_cons, hrest, spansFrom, ← hmunches.item?_span before,
        List.filterMap_cons]
      split <;> rename_i hitem <;> rw [hitem] <;> rfl

/-- Spans follow each other. -/
theorem le_start_of_mem_spansFrom {size : List Char → Nat} {start : Nat} {pieces : List Piece}
    {span : Span} (h : span ∈ spansFrom size start pieces) : start ≤ span.start := by
  induction pieces generalizing start with
  | nil => cases h
  | cons piece rest ih =>
      rcases List.mem_cons.1 h with rfl | hrest
      · exact Nat.le_refl start
      · exact (Nat.le_add_right start _).trans (ih hrest)

/-- The bytes of a span are those of the text of its piece. -/
theorem extract_of_mem_spansFrom (before : List Char) {pieces : List Piece} {span : Span}
    (h : span ∈ spansFrom byteSize (byteSize before) pieces) :
    (String.ofList (before ++ pieces.flatMap text)).toUTF8.extract span.start span.stop =
      (String.ofList span.piece.text).toUTF8 := by
  induction pieces generalizing before with
  | nil => cases h
  | cons piece rest ih =>
      rw [List.flatMap_cons, ← List.append_assoc]
      rcases List.mem_cons.1 h with rfl | hrest
      · exact extract_toUTF8 before piece.text (rest.flatMap text)
      · rw [← byteSize_append] at hrest
        exact ih (before ++ piece.text) hrest

end Piece

namespace TokenStream

/-! ## Lines of successive items -/

/-- The lines of what pieces show start with that of the first piece, end with that of the end, and
never decrease. -/
theorem pairwise_line_itemsFrom (line : Nat) (pieces : List Piece) :
    (line :: ((itemsFrom line pieces).map Item.line ++
      [line + newlines (pieces.flatMap Piece.text)])).Pairwise (· ≤ ·) := by
  induction pieces generalizing line with
  | nil => simp [itemsFrom]
  | cons piece rest ih =>
      have hfirst : line ≤ line + newlines piece.text := Nat.le_add_right line _
      have hrest := List.isChain_iff_pairwise.2 (ih (line + newlines piece.text))
      have hlines := List.isChain_iff_pairwise.1 (List.isChain_cons_cons.2 ⟨hfirst, hrest⟩)
      rw [itemsFrom_cons, List.flatMap_cons, newlines_append, ← Nat.add_assoc]
      cases hitem : piece.item? (line + newlines piece.text) with
      | none => exact hlines.sublist ((List.sublist_cons_self _ _).cons_cons line)
      | some item =>
          have hline : item.line = line + newlines piece.text := by
            cases piece <;> cases hitem <;> rfl
          rw [← hline] at hlines ⊢
          exact hlines

/-- Every token is on the line of the place behind its text, every character that starts nothing on
the line of the place before it, and an open string and the end on the line of the last place. -/
theorem lines_count_newlines (source : String) :
    (ofSource source).items =
      (Piece.spans byteSize source.toList).filterMap (Span.item? source.toUTF8) ∧
    (∀ span ∈ Piece.spans byteSize source.toList,
      source.toUTF8.extract span.start span.stop = (String.ofList span.piece.text).toUTF8) ∧
    (ofSource source).endLine = lineAt source.toUTF8 source.toUTF8.size ∧
    ((ofSource source).items.map Item.line ++ [(ofSource source).endLine]).Pairwise (· ≤ ·) := by
  have hsplits := Piece.splits_pieces source.toList
  have hbytes : source.toUTF8 = (String.ofList source.toList).toUTF8 := by
    rw [String.ofList_toList]
  refine ⟨?_, ?_, ?_, ?_⟩
  · rw [hbytes]
    exact hsplits.itemsFrom_eq []
  · intro span hspan
    have hextract := Piece.extract_of_mem_spansFrom [] hspan
    rwa [List.nil_append, hsplits.flatMap_text, ← hbytes] at hextract
  · rw [hbytes, lineAt_size]
    rfl
  · have hlines := pairwise_line_itemsFrom 1 (Piece.pieces source.toList)
    rw [hsplits.flatMap_text] at hlines
    exact hlines.of_cons

/-- A string over two lines, and a stray character behind a comment. -/
example : (ofSource "\"a\nb\" // c\n@\n").items.map Item.line = [2, 3] := by
  decide

end TokenStream

end LoxLang
