import LoxLang.Proofs.Token.Joining
import LoxLang.Proofs.Token.Munch

/-!
# A text falls apart in one way

The text decides which piece maximal munch takes off its front.  So pieces that a text can be split
into are the pieces of that text, and it is enough to exhibit a split to know what is found.
-/

namespace LoxLang

/-! ## Blanks and lexemes -/

theorem isBlank_iff (char : Char) : isBlank char ↔ char ∈ [' ', '\r', '\t', '\n'] := by
  simp [isBlank, or_assoc]

theorem isBlank_eq_false_of_continuesWord {char : Char} (h : continuesWord char) :
    isBlank char = false := by
  by_contra hblank
  rw [Bool.not_eq_false, isBlank_iff] at hblank
  simp only [List.mem_cons, List.not_mem_nil, or_false] at hblank
  rcases hblank with rfl | rfl | rfl | rfl <;> cases h

theorem isBlank_eq_false_of_isDigit {char : Char} (h : char.isDigit) : isBlank char = false :=
  isBlank_eq_false_of_continuesWord (by simp [continuesWord, Char.isAlphanum, h])

/-- No two symbols have the same text. -/
theorem Symbol.spelling_injective {first second : Symbol} (h : first.spelling = second.spelling) :
    first = second := by
  rcases Piece.spelling_cases first with ⟨char, hfirst, hchar⟩ | ⟨char, hfirst, hchar⟩ <;>
    rcases Piece.spelling_cases second with ⟨char', hsecond, hchar'⟩ | ⟨char', hsecond, hchar'⟩ <;>
    rw [hfirst, hsecond] at h <;> cases h <;>
    exact Option.some.inj (hchar.symm.trans hchar')

namespace Lexeme

variable {kind other : Kind} {text rest more : List Char}

/-- There is no blank in a lexeme that is no string. -/
theorem isBlank_eq_false_or_quoted (h : Lexeme kind text) :
    (∀ char ∈ text, isBlank char = false) ∨
      ∃ inner, '"' ∉ inner ∧ text = '"' :: inner ++ ['"'] := by
  cases h with
  | string hinner => exact .inr ⟨_, hinner, rfl⟩
  | symbol symbol =>
      left
      cases symbol <;> simp [Symbol.spelling, isBlank]
  | keyword keyword =>
      left
      intro char hchar
      exact isBlank_eq_false_of_continuesWord ((isWord_keyword keyword).continuesWord char hchar)
  | identifier hword _ =>
      left
      intro char hchar
      exact isBlank_eq_false_of_continuesWord (hword.continuesWord char hchar)
  | whole hdigits _ =>
      left
      intro char hchar
      exact isBlank_eq_false_of_isDigit (hdigits.2 char hchar)
  | fraction hwhole hfraction _ =>
      left
      intro char hchar
      rcases List.mem_append.1 hchar with hbefore | hafter
      · exact isBlank_eq_false_of_isDigit (hwhole.2 char hbefore)
      · rcases List.mem_cons.1 hafter with rfl | hdigit
        · rfl
        · exact isBlank_eq_false_of_isDigit (hfraction.2 char hdigit)

/-- A string starts with a quotation mark, and the next one ends it. -/
theorem string_of_quote (h : Lexeme kind ('"' :: rest)) :
    ∃ inner, '"' ∉ inner ∧ kind = .string (String.ofList inner) ∧ rest = inner ++ ['"'] := by
  obtain ⟨value, rfl⟩ := (h.opens_of_prefix (List.prefix_refl _)).string_of_eq rfl
  generalize htext : '"' :: rest = whole at h
  cases h with
  | @string inner hinner => exact ⟨inner, hinner, rfl, (List.cons.inj htext).2⟩

/-- What makes a lexeme longer holds no blank. -/
theorem isBlank_eq_false_of_append (h : Lexeme kind text) (hlonger : Lexeme other (text ++ more)) :
    ∀ char ∈ more, isBlank char = false := by
  intro char hchar
  rcases hlonger.isBlank_eq_false_or_quoted with hnone | ⟨inner, hinner, hwhole⟩
  · exact hnone char (List.mem_append_right text hchar)
  · -- Both are strings, which end at the same quotation mark.
    obtain ⟨first, rest, rfl, -⟩ := h.exists_opens
    obtain ⟨rfl, hrest⟩ := List.cons.inj hwhole
    obtain ⟨inner', -, -, rfl⟩ := h.string_of_quote
    have hends : inner ++ '"' :: [] = inner' ++ '"' :: more := by
      simpa using hrest.symm
    obtain ⟨-, -, rfl⟩ := (List.append_cons_inj_of_notMem hinner List.not_mem_nil).1 hends
    cases hchar

/-! ## One kind for each lexeme -/

theorem spelling_symbol {symbol : Symbol} (h : Lexeme (.symbol symbol) text) :
    symbol.spelling = text := by
  cases h
  rfl

theorem spelling_keyword {keyword : Keyword} (h : Lexeme (.keyword keyword) text) :
    keyword.spelling.toList = text := by
  cases h
  rfl

theorem spelling_ne_of_identifier (h : Lexeme .identifier text) (keyword : Keyword) :
    keyword.spelling.toList ≠ text := by
  cases h with
  | identifier _ hreserved => exact hreserved keyword

/-- No text is a lexeme of two kinds. -/
theorem kind_unique (h : Lexeme kind text) (h' : Lexeme other text) : kind = other := by
  obtain ⟨first, rest, rfl, hopens⟩ := h.exists_opens
  have hopens' := h'.opens_of_prefix (List.prefix_refl (first :: rest))
  by_cases hquote : first = '"'
  · subst hquote
    obtain ⟨inner, -, rfl, htext⟩ := h.string_of_quote
    obtain ⟨inner', -, rfl, htext'⟩ := h'.string_of_quote
    rw [List.append_cancel_right (htext.symm.trans htext')]
  by_cases hdigit : first.isDigit
  · obtain ⟨value, rfl⟩ := hopens.number_of_isDigit hdigit
    obtain ⟨value', rfl⟩ := hopens'.number_of_isDigit hdigit
    rw [Option.some.inj (h.decimal?_eq.symm.trans h'.decimal?_eq)]
  by_cases hword : first.isAlpha ∨ first = '_'
  · generalize first :: rest = text at h h'
    rcases hopens.word_of_isAlpha hword with ⟨keyword, rfl⟩ | rfl <;>
      rcases hopens'.word_of_isAlpha hword with ⟨keyword', rfl⟩ | rfl
    · obtain hspelling := h.spelling_keyword.trans h'.spelling_keyword.symm
      rw [Keyword.spelling_injective (String.toList_injective hspelling)]
    · exact absurd h.spelling_keyword (h'.spelling_ne_of_identifier keyword)
    · exact absurd h'.spelling_keyword (h.spelling_ne_of_identifier keyword')
    · rfl
  · obtain ⟨symbol, rfl⟩ := hopens.symbol_of_not hquote (by simpa using hdigit) hword
    obtain ⟨symbol', rfl⟩ := hopens'.symbol_of_not hquote (by simpa using hdigit) hword
    rw [Symbol.spelling_injective (h.spelling_symbol.trans h'.spelling_symbol.symm)]

/-- A lexeme is the longest one in front of a text if none goes on beyond it. -/
theorem longest_of_not_append {after : List Char} (h : Lexeme kind text)
    (hnone : ∀ other char more, char :: more <+: after → ¬Lexeme other (text ++ char :: more)) :
    Longest kind text (text ++ after) := by
  refine ⟨h, ?_⟩
  intro other longer hlonger hfront
  by_contra hlength
  obtain ⟨more, rfl⟩ := List.prefix_of_prefix_length_le (List.prefix_append text after) hfront
    (Nat.le_of_not_le hlength)
  cases more with
  | nil => simp at hlength
  | cons char more =>
      rw [List.prefix_append_right_inj] at hfront
      exact hnone other char more hfront hlonger

/-- A lexeme does not start with a blank. -/
theorem isBlank_head_eq_false {first : Char} (h : Lexeme kind (first :: rest)) :
    isBlank first = false := by
  rcases h.isBlank_eq_false_or_quoted with hnone | ⟨inner, -, hwhole⟩
  · exact hnone first List.mem_cons_self
  · obtain ⟨rfl, -⟩ := List.cons.inj hwhole
    rfl

/-- An open string has no closing quotation mark, so it starts with no lexeme. -/
theorem not_prefix_openString {inner : List Char} (h : Lexeme kind text) (hinner : '"' ∉ inner) :
    ¬text <+: '"' :: inner := by
  intro hfront
  obtain ⟨first, rest, rfl, -⟩ := h.exists_opens
  obtain ⟨rfl, hrest⟩ := List.cons_prefix_cons.1 hfront
  obtain ⟨value, -, -, rfl⟩ := h.string_of_quote
  exact hinner (hrest.mem (List.mem_append_right value List.mem_cons_self))

end Lexeme

/-! ## One piece for each text -/

namespace Piece

variable {piece : Piece} {kind : Kind} {text after rest : List Char} {first : Char}

/-- Of two longest lexemes in front of a text each is the other one. -/
theorem longest_unique {other : Kind} {longer : List Char}
    (h : Longest kind text rest) (hfront : text <+: rest) (h' : Longest other longer rest)
    (hfront' : longer <+: rest) : kind = other ∧ text = longer := by
  have hlength := Nat.le_antisymm (h'.2 _ _ h.1 hfront) (h.2 _ _ h'.1 hfront')
  obtain rfl := (List.prefix_of_prefix_length_le hfront hfront' hlength.le).eq_of_length hlength
  exact ⟨h.1.kind_unique h'.1, rfl⟩

/-- What does not occur differs from all that does. -/
theorem bne_of_notMem {mark : Char} (h : mark ∉ text) : ∀ char ∈ text, (char != mark) = true := by
  intro char hchar
  simpa using ne_of_mem_of_not_mem hchar h

theorem next_blank (h : isBlank first) : next first rest = (blank first, rest) :=
  if_pos h

/-- The end of the line ends a comment. -/
theorem next_comment {line : List Char} (hline : '\n' ∉ line)
    (hafter : ∀ char ∈ after.head?, char = '\n') :
    next '/' ('/' :: line ++ after) = (comment ('/' :: '/' :: line), after) := by
  have hall : ∀ char ∈ '/' :: line, (char != '\n') = true :=
    List.forall_mem_cons.2 ⟨rfl, bne_of_notMem hline⟩
  have hstop : after.takeWhile (· != '\n') = [] ∧ after.dropWhile (· != '\n') = after := by
    cases after with
    | nil => exact ⟨rfl, rfl⟩
    | cons char after =>
        obtain rfl := hafter char rfl
        exact ⟨rfl, rfl⟩
  have hcomment : ('/' == '/' && ('/' :: line ++ after).head? == some '/') = true := rfl
  rw [next, if_neg (by decide), if_pos hcomment, List.takeWhile_append_of_pos hall,
    List.dropWhile_append_of_pos hall, hstop.1, hstop.2, List.append_nil]

/-- Without a closing quotation mark all the text is an open string. -/
theorem next_openString (h : '"' ∉ rest) : next '"' rest = (openString ('"' :: rest), []) := by
  have htake : rest.takeWhile (· != '"') = rest := List.takeWhile_eq_self_iff.2 (bne_of_notMem h)
  have hdrop : rest.dropWhile (· != '"') = [] := List.dropWhile_eq_nil_iff.2 (bne_of_notMem h)
  have hnext : next '"' rest = quoted rest := rfl
  rw [hnext, quoted, hdrop, htake]

/-- The longest lexeme in front of a text is what has to be taken off, unless a comment starts
there. -/
theorem Munches.eq_lexeme {left : List Char} (h : piece.Munches left)
    (happend : piece.text ++ left = text ++ after) (hlongest : Longest kind text (text ++ after))
    (hcomment : ¬['/', '/'] <+: text ++ after) : piece = .lexeme kind text ∧ left = after := by
  have hfront : text <+: text ++ after := List.prefix_append text after
  cases h with
  | @blank char hblank =>
      obtain ⟨first, rest, rfl, -⟩ := hlongest.1.exists_opens
      obtain ⟨rfl, -⟩ := List.cons.inj happend
      rw [← isBlank_iff, hlongest.1.isBlank_head_eq_false] at hblank
      cases hblank
  | comment _ _ => exact absurd ⟨_, happend⟩ hcomment
  | @lexeme other longer hother _ =>
      have hfront' : longer <+: text ++ after := ⟨left, happend⟩
      have hsame : text ++ after = longer ++ left := happend.symm
      rw [← hsame] at hother
      obtain ⟨rfl, rfl⟩ := longest_unique hlongest hfront hother hfront'
      exact ⟨rfl, (List.append_cancel_left hsame).symm⟩
  | stray _ _ hnone =>
      rw [← happend] at hfront
      exact absurd hfront (hnone _ _ hlongest.1)
  | openString hinner hnil =>
      rw [← happend, hnil, List.append_nil] at hfront
      exact absurd hfront (hlongest.1.not_prefix_openString hinner)

/-- A character that starts nothing is what has to be taken off. -/
theorem Munches.eq_stray {left : List Char} (h : piece.Munches left)
    (happend : piece.text ++ left = first :: after) (hstray : (Piece.stray first).Munches after) :
    piece = .stray first ∧ left = after := by
  cases hstray with
  | stray hblank hquote hnone =>
      cases h with
      | blank hother =>
          obtain ⟨rfl, -⟩ := List.cons.inj happend
          exact absurd hother hblank
      | comment _ _ =>
          obtain ⟨rfl, -⟩ := List.cons.inj happend
          exact absurd (List.prefix_append ['/'] after) (hnone _ _ (.symbol .slash))
      | lexeme hlongest _ => exact absurd ⟨left, happend⟩ (hnone _ _ hlongest.1)
      | stray _ _ _ =>
          obtain ⟨rfl, rfl⟩ := List.cons.inj happend
          exact ⟨rfl, rfl⟩
      | openString _ _ =>
          obtain ⟨rfl, -⟩ := List.cons.inj happend
          exact absurd rfl hquote

/-- What has to be taken off the front of a text is the first piece of it. -/
theorem Munches.next_eq (h : piece.Munches after) (htext : piece.text ++ after = first :: rest) :
    next first rest = (piece, after) := by
  have hmunches := munches_next first rest
  have happend := text_next first rest
  cases h with
  | @blank char hblank =>
      obtain ⟨rfl, rfl⟩ := List.cons.inj htext
      exact next_blank (isBlank_iff char |>.2 hblank)
  | comment hline hafter =>
      obtain ⟨rfl, rfl⟩ := List.cons.inj htext
      exact next_comment hline hafter
  | lexeme hlongest hcomment =>
      obtain ⟨hpiece, hleft⟩ := hmunches.eq_lexeme (happend.trans htext.symm) hlongest hcomment
      exact Prod.ext hpiece hleft
  | stray hblank hquote hnone =>
      obtain ⟨rfl, rfl⟩ := List.cons.inj htext
      obtain ⟨hpiece, hleft⟩ := hmunches.eq_stray happend (.stray hblank hquote hnone)
      exact Prod.ext hpiece hleft
  | @openString inner hinner hnil =>
      subst hnil
      obtain ⟨rfl, hrest⟩ := List.cons.inj htext
      obtain rfl : inner = rest := (List.append_nil inner).symm.trans hrest
      exact next_openString hinner

/-- No piece is empty. -/
theorem Munches.text_ne_nil (h : piece.Munches after) : piece.text ≠ [] := by
  cases h with
  | lexeme hlongest _ =>
      obtain ⟨first, rest, rfl, -⟩ := hlongest.1.exists_opens
      exact List.cons_ne_nil first rest
  | _ => exact List.cons_ne_nil _ _

/-- The pieces that a text falls apart into are the pieces of the text. -/
theorem Splits.eq_pieces {source : List Char} {pieces : List Piece} (h : Splits source pieces) :
    pieces = Piece.pieces source := by
  induction h with
  | nil => rfl
  | @cons piece after rest hmunches _ ih =>
      obtain ⟨first, more, htext⟩ := List.exists_cons_of_ne_nil hmunches.text_ne_nil
      have hnext : next first (more ++ after) = (piece, after) :=
        hmunches.next_eq (by rw [htext, List.cons_append])
      rw [htext, List.cons_append, pieces_cons, hnext, ih]

end Piece

end LoxLang
