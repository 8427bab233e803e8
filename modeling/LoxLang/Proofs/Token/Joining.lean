import LoxLang.Proofs.Token.Lines

/-!
# Texts one below the other

A text in which no string is left open, a newline and another text: the pieces are those of the
first text, a blank for the newline, and those of the second text.  The newline ends whatever the
first text ends with, a comment too.
-/

namespace LoxLang

namespace Piece

/-- A string that is never closed. -/
def isOpen : Piece → Bool
  | openString _ => true
  | _ => false

section

variable {p : Char → Bool} (rest more : List Char)

theorem takeWhile_append_newline (hp : p '\n' = false) :
    (rest ++ '\n' :: more).takeWhile p = rest.takeWhile p := by
  induction rest with
  | nil => exact List.takeWhile_cons_of_neg (by simp [hp])
  | cons char rest ih =>
      rw [List.cons_append, List.takeWhile_cons, List.takeWhile_cons, ih]

theorem dropWhile_append_newline (hp : p '\n' = false) :
    (rest ++ '\n' :: more).dropWhile p = rest.dropWhile p ++ '\n' :: more := by
  induction rest with
  | nil => exact List.dropWhile_cons_of_neg (by simp [hp])
  | cons char rest ih =>
      rw [List.cons_append, List.dropWhile_cons, List.dropWhile_cons, ih]
      split <;> rfl

theorem number_append_newline (first : Char) :
    number first (rest ++ '\n' :: more) =
      ((number first rest).1, (number first rest).2 ++ '\n' :: more) := by
  have hdigit : Char.isDigit '\n' = false := rfl
  have hdrop := dropWhile_append_newline rest more hdigit
  have htake := takeWhile_append_newline rest more hdigit
  unfold number
  dsimp only
  rw [hdrop, htake]
  cases hafter : rest.dropWhile Char.isDigit with
  | nil => rfl
  | cons char after =>
      by_cases hpoint : char = '.'
      · subst hpoint
        have hdrop' := dropWhile_append_newline after more hdigit
        have htake' := takeWhile_append_newline after more hdigit
        simp only [List.cons_append, hdrop', htake']
        cases after.takeWhile Char.isDigit <;> rfl
      · rw [List.cons_append]
        simp [hpoint]

theorem word_append_newline (first : Char) :
    word first (rest ++ '\n' :: more) =
      ((word first rest).1, (word first rest).2 ++ '\n' :: more) := by
  have hnewline : continuesWord '\n' = false := rfl
  have hdrop := dropWhile_append_newline rest more hnewline
  have htake := takeWhile_append_newline rest more hnewline
  rw [word, word, hdrop, htake]

theorem quoted_append (h : (quoted rest).1.isOpen = false) :
    quoted (rest ++ more) = ((quoted rest).1, (quoted rest).2 ++ more) := by
  unfold quoted at h ⊢
  dsimp only at h ⊢
  have hclosed : rest.dropWhile (· != '"') ≠ [] := by
    intro hnil
    rw [hnil] at h
    cases h
  have hdrop : (rest ++ more).dropWhile (· != '"') = rest.dropWhile (· != '"') ++ more := by
    rw [List.dropWhile_append, if_neg (by simpa using hclosed)]
  have htake : (rest ++ more).takeWhile (· != '"') = rest.takeWhile (· != '"') := by
    have hlength := congrArg List.length (List.takeWhile_append_dropWhile (p := (· != '"'))
      (l := rest))
    rw [List.length_append] at hlength
    have hpositive := List.length_pos_iff.2 hclosed
    rw [List.takeWhile_append, if_neg (by omega)]
  rw [hdrop, htake]
  cases hafter : rest.dropWhile (· != '"') with
  | nil => exact absurd hafter hclosed
  | cons mark after => rfl

theorem symbolOrStray_append_newline (first : Char) :
    symbolOrStray first (rest ++ '\n' :: more) =
      ((symbolOrStray first rest).1, (symbolOrStray first rest).2 ++ '\n' :: more) := by
  cases hequal : Symbol.withEqual? first with
  | none => cases hchar : Symbol.ofChar? first <;> simp [symbolOrStray, hequal, hchar]
  | some symbol =>
      cases rest with
      | nil => cases hchar : Symbol.ofChar? first <;> simp [symbolOrStray, hequal, hchar]
      | cons second rest =>
          by_cases hsecond : second = '='
          · subst hsecond
            simp [symbolOrStray, hequal]
          · cases hchar : Symbol.ofChar? first <;>
              simp [symbolOrStray, hequal, hchar, hsecond]

/-- The first piece of a text is the same if a newline and more text follow. -/
theorem next_append_newline (first : Char) (h : (next first rest).1.isOpen = false) :
    next first (rest ++ '\n' :: more) =
      ((next first rest).1, (next first rest).2 ++ '\n' :: more) := by
  have hslash : ((rest ++ '\n' :: more).head? == some '/') = (rest.head? == some '/') := by
    cases rest <;> rfl
  unfold next at h ⊢
  rw [hslash]
  by_cases hblank : isBlank first
  · rw [if_pos hblank, if_pos hblank]
  rw [if_neg hblank] at h ⊢
  rw [if_neg hblank]
  by_cases hcomment : (first == '/' && rest.head? == some '/') = true
  · have htake : (rest ++ '\n' :: more).takeWhile (· != '\n') = rest.takeWhile (· != '\n') :=
      takeWhile_append_newline rest more rfl
    have hdrop : (rest ++ '\n' :: more).dropWhile (· != '\n') =
        rest.dropWhile (· != '\n') ++ '\n' :: more := dropWhile_append_newline rest more rfl
    rw [if_pos hcomment, if_pos hcomment, htake, hdrop]
  rw [if_neg hcomment] at h ⊢
  rw [if_neg hcomment]
  by_cases hquote : (first == '"') = true
  · rw [if_pos hquote] at h ⊢
    rw [if_pos hquote]
    exact quoted_append rest _ h
  rw [if_neg hquote, if_neg hquote]
  by_cases hdigit : first.isDigit
  · rw [if_pos hdigit, if_pos hdigit]
    exact number_append_newline rest more first
  rw [if_neg hdigit, if_neg hdigit]
  by_cases hword : startsWord first
  · rw [if_pos hword, if_pos hword]
    exact word_append_newline rest more first
  rw [if_neg hword, if_neg hword]
  exact symbolOrStray_append_newline rest more first

/-! ## Pieces -/

end

/-- A limit above the length of the text makes no difference. -/
theorem upTo_eq_pieces {limit : Nat} {source : List Char} (h : source.length ≤ limit) :
    upTo limit source = pieces source := by
  have hupTo (limit limit' : Nat) (source : List Char) (h : source.length ≤ limit)
      (h' : source.length ≤ limit') : upTo limit source = upTo limit' source := by
    induction limit generalizing limit' source with
    | zero =>
        obtain rfl : source = [] := List.eq_nil_of_length_eq_zero (Nat.le_zero.1 h)
        cases limit' <;> rfl
    | succ limit ih =>
        cases source with
        | nil => cases limit' <;> rfl
        | cons first rest =>
            cases limit' with
            | zero => cases h'
            | succ limit' =>
                have hlength := length_next first rest
                rw [upTo, upTo]
                dsimp only
                rw [ih limit' _ (Nat.le_trans hlength (Nat.le_of_succ_le_succ h))
                  (Nat.le_trans hlength (Nat.le_of_succ_le_succ h'))]
  exact hupTo limit source.length source h (Nat.le_refl _)

theorem pieces_cons (first : Char) (rest : List Char) :
    pieces (first :: rest) = (next first rest).1 :: pieces (next first rest).2 := by
  rw [← upTo_eq_pieces (length_next first rest)]
  rfl

/-- The pieces of two texts with a newline in between. -/
theorem pieces_append_newline (source more : List Char)
    (h : ∀ piece ∈ pieces source, piece.isOpen = false) :
    pieces (source ++ '\n' :: more) = pieces source ++ blank '\n' :: pieces more := by
  induction hlength : source.length using Nat.strongRecOn generalizing source with
  | ind length ih =>
      cases source with
      | nil => exact pieces_cons '\n' more
      | cons first rest =>
          rw [pieces_cons] at h ⊢
          obtain ⟨hfirst, hrest⟩ := List.forall_mem_cons.1 h
          have hshorter : (next first rest).2.length < length := by
            rw [← hlength]
            exact Nat.lt_succ_of_le (length_next first rest)
          rw [List.cons_append, pieces_cons, next_append_newline rest more first hfirst]
          exact congrArg _ (ih _ hshorter _ hrest rfl)

end Piece

/-! ## Tokens and faults -/

theorem newlines_append (first second : List Char) :
    newlines (first ++ second) = newlines first + newlines second :=
  List.count_append

namespace TokenStream

theorem itemsFrom_append (line : Nat) (first second : List Piece) :
    itemsFrom line (first ++ second) =
      itemsFrom line first ++ itemsFrom (line + newlines (first.flatMap Piece.text)) second := by
  induction first generalizing line with
  | nil => rfl
  | cons piece rest ih =>
      rw [List.cons_append, itemsFrom_cons, itemsFrom_cons, ih, List.flatMap_cons, newlines_append,
        List.append_assoc, Nat.add_assoc]

theorem itemsFrom_add (line distance : Nat) (pieces : List Piece) :
    itemsFrom (line + distance) pieces =
      (itemsFrom line pieces).map (Item.mapLine (· + distance)) := by
  induction pieces generalizing line with
  | nil => rfl
  | cons piece rest ih =>
      have hitem := piece.map_item? (· + distance) (line + newlines piece.text)
      rw [itemsFrom_cons, itemsFrom_cons, Nat.add_right_comm, ih, List.map_append, ← hitem]
      cases piece.item? (line + newlines piece.text) <;> rfl

/-- The lines of what a text shows are lines of the text. -/
theorem line_of_mem_itemsFrom {line : Nat} {pieces : List Piece} {token : Token}
    (h : .token token ∈ itemsFrom line pieces) :
    line ≤ token.line ∧ token.line ≤ line + newlines (pieces.flatMap Piece.text) := by
  induction pieces generalizing line with
  | nil => cases h
  | cons piece rest ih =>
      rw [itemsFrom_cons] at h
      rw [List.flatMap_cons, newlines_append]
      rcases List.mem_append.1 h with hfirst | hrest
      · have hline : token.line = line + newlines piece.text := by
          cases piece with
          | lexeme kind text =>
              cases List.mem_singleton.1 hfirst
              rfl
          | _ => simp [Piece.item?] at hfirst
        omega
      · have hbounds := ih hrest
        omega

theorem line_of_mem_tokens {source : String} {token : Token}
    (h : token ∈ (ofSource source).tokens) :
    1 ≤ token.line ∧ token.line ≤ 1 + newlines source.toList := by
  obtain ⟨item, hitem, htoken⟩ := List.mem_filterMap.1 h
  cases item with
  | fault fault => cases htoken
  | token found =>
      cases htoken
      have hbounds := line_of_mem_itemsFrom hitem
      rw [Piece.text_pieces] at hbounds
      exact hbounds

/-- A text without faults leaves no string open. -/
theorem isOpen_of_faults_eq_nil {source : String} (h : (ofSource source).faults = []) :
    ∀ piece ∈ Piece.pieces source.toList, piece.isOpen = false := by
  have hitems (line : Nat) (pieces : List Piece)
      (hfaults : ∀ fault, .fault fault ∉ itemsFrom line pieces) :
      ∀ piece ∈ pieces, piece.isOpen = false := by
    induction pieces generalizing line with
    | nil =>
        intro piece hpiece
        cases hpiece
    | cons piece rest ih =>
        rw [itemsFrom_cons] at hfaults
        intro other hother
        rcases List.mem_cons.1 hother with rfl | hrest
        · cases other with
          | openString text => exact absurd (List.mem_append_left _ List.mem_cons_self) (hfaults _)
          | _ => rfl
        · have hnone (fault : LexicalFault) (hfault : .fault fault ∈ itemsFrom _ rest) :=
            hfaults fault (List.mem_append_right _ hfault)
          exact ih _ hnone other hrest
  refine hitems 1 _ fun fault hfault => ?_
  have hmem : fault ∈ (ofSource source).faults := List.mem_filterMap.2 ⟨_, hfault, rfl⟩
  rw [h] at hmem
  cases hmem

theorem toList_join (first second : String) :
    (first ++ "\n" ++ second).toList = first.toList ++ '\n' :: second.toList := by
  rw [String.toList_append, String.toList_append, List.append_assoc]
  rfl

/-- The items of two texts with a newline in between. -/
theorem items_join {first : String} (second : String) (h : (ofSource first).faults = []) :
    (ofSource (first ++ "\n" ++ second)).items =
      (ofSource first).items ++
        (ofSource second).items.map (Item.mapLine (· + (newlines first.toList + 1))) := by
  have hline : 1 + newlines first.toList + newlines (Piece.blank '\n').text =
      1 + (newlines first.toList + 1) := Nat.add_assoc _ _ _
  show itemsFrom 1 (Piece.pieces (first ++ "\n" ++ second).toList) = _
  rw [toList_join, Piece.pieces_append_newline _ _ (isOpen_of_faults_eq_nil h), itemsFrom_append,
    Piece.text_pieces, itemsFrom_cons, hline, itemsFrom_add]
  rfl

/-- Two texts with a newline in between show the tokens and faults of both, those of the second text
on lines further down. -/
theorem ofSource_join {first : String} (second : String) (h : (ofSource first).faults = []) :
    let joined := ofSource (first ++ "\n" ++ second)
    let below := newlines first.toList + 1
    joined.tokens =
        (ofSource first).tokens ++ (ofSource second).tokens.map (Token.mapLine (· + below)) ∧
      joined.faults = (ofSource second).faults.map (LexicalFault.mapLine (· + below)) ∧
      joined.endLine = (ofSource second).endLine + below := by
  intro joined below
  have hitems := items_join second h
  refine ⟨?_, ?_, ?_⟩
  · have htokens := tokens_map_mapLine (ofSource second) (· + below)
    rw [tokens, hitems, List.filterMap_append, htokens]
    rfl
  · have hfaults := faults_map_mapLine (ofSource second) (· + below)
    rw [faults, hitems, List.filterMap_append, hfaults]
    exact congrArg (· ++ _) h
  · show 1 + newlines (first ++ "\n" ++ second).toList = 1 + newlines second.toList + below
    have hsecond : newlines ('\n' :: second.toList) = newlines second.toList + 1 :=
      List.count_cons_self
    rw [toList_join, newlines_append, hsecond]
    omega

end TokenStream

end LoxLang
