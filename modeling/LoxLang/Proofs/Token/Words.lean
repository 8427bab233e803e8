import Mathlib.Data.List.Basic
import LoxLang.Token.Stream

/-!
# Words

What the tokens of a source text have for their texts: a reserved word has its own spelling, and an
identifier is spelled like no reserved word.  So the names of variables differ from the words by
which methods find their instance and their superclass.
-/

namespace LoxLang

/-- A token with the text that a token of its kind has in a source text. -/
structure Token.Genuine (token : Token) : Prop where
  keyword : ∀ keyword, token.isKeyword keyword → token.lexeme = keyword.spelling
  identifier : token.isIdentifier → ∀ keyword : Keyword, token.lexeme ≠ keyword.spelling

namespace Token

/-- Symbols and literals may have any text. -/
theorem genuine_of_kind {token : Token} (hkeyword : ∀ keyword, token.kind ≠ .keyword keyword)
    (hidentifier : token.kind ≠ .identifier) : token.Genuine where
  keyword keyword h := absurd (eq_of_beq h) (hkeyword keyword)
  identifier h := absurd (eq_of_beq h) hidentifier

end Token

namespace Piece

variable {first : Char} {rest text : List Char} {kind : Kind}

theorem genuine_number (h : (number first rest).1 = .lexeme kind text) (line : Nat) :
    Token.Genuine ⟨kind, String.ofList text, line⟩ := by
  have hkind : ∃ value, kind = .number value := by
    unfold number at h
    simp only at h
    split at h
    · split at h <;> cases h <;> exact ⟨_, rfl⟩
    · cases h
      exact ⟨_, rfl⟩
  obtain ⟨value, rfl⟩ := hkind
  exact Token.genuine_of_kind (by simp) (by simp)

theorem genuine_word (h : (word first rest).1 = .lexeme kind text) (line : Nat) :
    Token.Genuine ⟨kind, String.ofList text, line⟩ := by
  cases h
  cases hword : Keyword.ofSpelling? (String.ofList (first :: rest.takeWhile continuesWord)) with
  | some found =>
      constructor
      · intro keyword hkeyword
        have hkind : Kind.keyword found = .keyword keyword := by
          simpa [Token.isKeyword, hword] using hkeyword
        cases hkind
        exact (Keyword.spelling_of_ofSpelling? hword).symm
      · intro hidentifier
        simp [Token.isIdentifier] at hidentifier
  | none =>
      constructor
      · intro keyword hkeyword
        simp [Token.isKeyword] at hkeyword
      · intro _ keyword heq
        have hfound := Keyword.ofSpelling?_spelling keyword
        rw [← heq] at hfound
        cases hword.symm.trans hfound

theorem genuine_quoted (h : (quoted rest).1 = .lexeme kind text) (line : Nat) :
    Token.Genuine ⟨kind, String.ofList text, line⟩ := by
  have hkind : ∃ value, kind = .string value := by
    unfold quoted at h
    simp only at h
    split at h
    · cases h
    · cases h
      exact ⟨_, rfl⟩
  obtain ⟨value, rfl⟩ := hkind
  exact Token.genuine_of_kind (by simp) (by simp)

theorem genuine_symbolOrStray (h : (symbolOrStray first rest).1 = .lexeme kind text)
    (line : Nat) : Token.Genuine ⟨kind, String.ofList text, line⟩ := by
  have hkind : ∃ symbol, kind = .symbol symbol := by
    unfold symbolOrStray at h
    split at h
    · cases h
      exact ⟨_, rfl⟩
    · split at h
      · cases h
        exact ⟨_, rfl⟩
      · cases h
  obtain ⟨symbol, rfl⟩ := hkind
  exact Token.genuine_of_kind (by simp) (by simp)

theorem genuine_next (h : (next first rest).1 = .lexeme kind text) (line : Nat) :
    Token.Genuine ⟨kind, String.ofList text, line⟩ := by
  unfold next at h
  split at h
  · cases h
  split at h
  · cases h
  split at h
  · exact genuine_quoted h line
  split at h
  · exact genuine_number h line
  split at h
  · exact genuine_word h line
  · exact genuine_symbolOrStray h line

theorem genuine_of_mem_upTo {limit : Nat} {source : List Char}
    (h : lexeme kind text ∈ upTo limit source) (line : Nat) :
    Token.Genuine ⟨kind, String.ofList text, line⟩ := by
  induction limit generalizing source with
  | zero => cases h
  | succ limit ih =>
      cases source with
      | nil => cases h
      | cons first rest =>
          rcases List.mem_cons.1 h with hfirst | hrest
          · exact genuine_next hfirst.symm line
          · exact ih hrest

end Piece

namespace TokenStream

theorem exists_piece {line : Nat} {pieces : List Piece} {token : Token}
    (h : Item.token token ∈ itemsFrom line pieces) :
    ∃ kind text line', Piece.lexeme kind text ∈ pieces ∧
      token = ⟨kind, String.ofList text, line'⟩ := by
  induction pieces generalizing line with
  | nil => cases h
  | cons piece rest ih =>
      have hlater (h : Item.token token ∈ itemsFrom (line + newlines piece.text) rest) :
          ∃ kind text line', Piece.lexeme kind text ∈ piece :: rest ∧
            token = ⟨kind, String.ofList text, line'⟩ := by
        obtain ⟨kind, text, line', hmem, heq⟩ := ih h
        exact ⟨kind, text, line', List.mem_cons_of_mem _ hmem, heq⟩
      cases piece with
      | lexeme kind text =>
          rcases List.mem_cons.1 h with hfirst | hrest
          · cases hfirst
            exact ⟨kind, text, _, List.mem_cons_self, rfl⟩
          · exact hlater hrest
      | blank char => exact hlater h
      | comment text => exact hlater h
      | stray char =>
          rcases List.mem_cons.1 h with hfirst | hrest
          · cases hfirst
          · exact hlater hrest
      | openString text =>
          rcases List.mem_cons.1 h with hfirst | hrest
          · cases hfirst
          · exact hlater hrest

/-- The tokens of a source text have the texts of their kinds. -/
theorem genuine_of_mem_tokens {source : String} {token : Token}
    (h : token ∈ (ofSource source).tokens) : token.Genuine := by
  obtain ⟨item, hitem, heq⟩ := List.mem_filterMap.1 h
  cases item with
  | fault fault => cases heq
  | token token' =>
      cases heq
      obtain ⟨kind, text, line, hmem, rfl⟩ := exists_piece hitem
      exact Piece.genuine_of_mem_upTo hmem line

end TokenStream

end LoxLang
