import Mathlib.Data.List.Infix
import Mathlib.Data.List.TakeWhile
import LoxLang.Proofs.Decimal.Reading
import LoxLang.Proofs.Token.Lines

/-!
# Maximal munch

`Lexeme` is the lexical grammar: which texts are tokens, and of what kind.  `Piece.Munches` says
which piece has to be taken off the front of a text: a blank, a comment, the longest lexeme, or a
character or an open string that no lexeme can take.  The pieces of a source text are taken off one
after the other in this way, up to its end, and so nothing of the text is lost.
-/

namespace LoxLang

/-! ## The lexical grammar -/

/-- The text of a symbol. -/
def Symbol.spelling : Symbol → List Char
  | leftParen => ['(']
  | rightParen => [')']
  | leftBrace => ['\x7b']
  | rightBrace => ['\x7d']
  | comma => [',']
  | dot => ['.']
  | minus => ['-']
  | plus => ['+']
  | semicolon => [';']
  | slash => ['/']
  | star => ['*']
  | bang => ['!']
  | bangEqual => ['!', '=']
  | equal => ['=']
  | equalEqual => ['=', '=']
  | greater => ['>']
  | greaterEqual => ['>', '=']
  | less => ['<']
  | lessEqual => ['<', '=']

/-- A text that starts like an identifier and goes on like one. -/
def IsWord : List Char → Prop
  | [] => False
  | first :: rest =>
      (first.isAlpha ∨ first = '_') ∧ ∀ char ∈ rest, char.isAlpha ∨ char.isDigit ∨ char = '_'

/-- At least one digit. -/
def IsDigits (text : List Char) : Prop :=
  text ≠ [] ∧ ∀ char ∈ text, char.isDigit

/-- The texts that are tokens, with the kinds of these. -/
inductive Lexeme : Kind → List Char → Prop
  | symbol (symbol : Symbol) : Lexeme (.symbol symbol) symbol.spelling
  | keyword (keyword : Keyword) : Lexeme (.keyword keyword) keyword.spelling.toList
  /-- Words that are not reserved. -/
  | identifier {text : List Char} :
      IsWord text → (∀ keyword : Keyword, keyword.spelling.toList ≠ text) → Lexeme .identifier text
  /-- The value of a number is the binary64 number nearest to what its digits stand for. -/
  | whole {digits : List Char} {value : Float} :
      IsDigits digits → Magnitude.Nearest (pointed digits []) value.toBits.toNat →
      Lexeme (.number value) digits
  | fraction {whole fraction : List Char} {value : Float} :
      IsDigits whole → IsDigits fraction →
      Magnitude.Nearest (pointed whole fraction) value.toBits.toNat →
      Lexeme (.number value) (whole ++ '.' :: fraction)
  /-- The value of a string is the text between its quotation marks. -/
  | string {text : List Char} :
      '"' ∉ text → Lexeme (.string (String.ofList text)) ('"' :: text ++ ['"'])

/-- A text of which the lexeme is the longest one in front. -/
def Longest (kind : Kind) (lexeme text : List Char) : Prop :=
  Lexeme kind lexeme ∧ ∀ other longer, Lexeme other longer → longer <+: text →
    longer.length ≤ lexeme.length

/-- A piece that is to be taken off the front of a text, of which `after` is left. -/
inductive Piece.Munches (after : List Char) : Piece → Prop
  | blank {char : Char} : char ∈ [' ', '\r', '\t', '\n'] → Munches after (.blank char)
  | comment {line : List Char} :
      '\n' ∉ line → (∀ char ∈ after.head?, char = '\n') →
      Munches after (.comment ('/' :: '/' :: line))
  | lexeme {kind : Kind} {text : List Char} :
      Longest kind text (text ++ after) → ¬['/', '/'] <+: text ++ after →
      Munches after (.lexeme kind text)
  | stray {char : Char} :
      char ∉ [' ', '\r', '\t', '\n'] → char ≠ '"' →
      (∀ kind text, Lexeme kind text → ¬text <+: char :: after) → Munches after (.stray char)
  | openString {text : List Char} :
      '"' ∉ text → after = [] → Munches after (.openString ('"' :: text))

/-- A text falls apart into pieces, each of which is the one to be taken off next. -/
inductive Piece.Splits : List Char → List Piece → Prop
  | nil : Splits [] []
  | cons {piece : Piece} {after : List Char} {rest : List Piece} :
      piece.Munches after → Splits after rest → Splits (piece.text ++ after) (piece :: rest)

/-! ## First characters -/

/-- What a lexeme starts with tells what sort of lexeme it is. -/
inductive Opens (first : Char) : Kind → Prop
  | symbol (symbol : Symbol) : first ∈ symbol.spelling.head? → Opens first (.symbol symbol)
  | keyword (keyword : Keyword) : first.isAlpha → Opens first (.keyword keyword)
  | identifier : first.isAlpha ∨ first = '_' → Opens first .identifier
  | number (value : Float) : first.isDigit → Opens first (.number value)
  | string (value : String) : first = '"' → Opens first (.string value)

namespace Lexeme

variable {kind : Kind} {text : List Char}

theorem isWord_keyword (keyword : Keyword) : IsWord keyword.spelling.toList := by
  cases keyword <;> simp [Keyword.spelling, IsWord]

theorem exists_opens (h : Lexeme kind text) :
    ∃ first rest, text = first :: rest ∧ Opens first kind := by
  cases h with
  | symbol symbol => cases symbol <;> exact ⟨_, _, rfl, .symbol _ rfl⟩
  | keyword keyword => cases keyword <;> exact ⟨_, _, rfl, .keyword _ rfl⟩
  | identifier hword _ =>
      cases text with
      | nil => exact hword.elim
      | cons first rest => exact ⟨first, rest, rfl, .identifier hword.1⟩
  | whole hdigits _ =>
      cases text with
      | nil => exact absurd rfl hdigits.1
      | cons first rest => exact ⟨first, rest, rfl, .number _ (hdigits.2 first List.mem_cons_self)⟩
  | @fraction whole _ _ hwhole _ _ =>
      cases whole with
      | nil => exact absurd rfl hwhole.1
      | cons first rest => exact ⟨first, _, rfl, .number _ (hwhole.2 first List.mem_cons_self)⟩
  | string _ => exact ⟨'"', _, rfl, .string _ rfl⟩

/-- A lexeme in front of a text starts with the first character of the text. -/
theorem opens_of_prefix {first : Char} {rest : List Char} (h : Lexeme kind text)
    (hfront : text <+: first :: rest) : Opens first kind := by
  obtain ⟨start, more, rfl, hopens⟩ := h.exists_opens
  obtain ⟨rfl, -⟩ := List.cons_prefix_cons.1 hfront
  exact hopens

end Lexeme

namespace Opens

variable {first : Char} {kind : Kind}

theorem not_isAlpha_of_isDigit (h : first.isDigit) : first.isAlpha = false := by
  show (decide (first.val ≥ 'A'.val ∧ first.val ≤ 'Z'.val) ||
    (first.val ≥ 'a'.val && first.val ≤ 'z'.val)) = false
  simp only [Char.isDigit, Bool.and_eq_true, decide_eq_true_eq, UInt32.le_iff_toNat_le, ge_iff_le,
    Bool.or_eq_false_iff, Bool.and_eq_false_iff, decide_eq_false_iff_not] at h ⊢
  have hzero : '0'.val.toNat = 48 := rfl
  have hnine : '9'.val.toNat = 57 := rfl
  have hupper : 'A'.val.toNat = 65 := rfl
  have hlower : 'a'.val.toNat = 97 := rfl
  omega

/-- No symbol starts with a quotation mark, or like a word or a number. -/
theorem head?_spelling (symbol : Symbol) {char : Char} (h : char ∈ symbol.spelling.head?) :
    char ≠ '"' ∧ char.isDigit = false ∧ char.isAlpha = false ∧ char ≠ '_' := by
  cases symbol <;> (cases h; decide)

theorem number_of_isDigit (h : Opens first kind) (hfirst : first.isDigit) :
    ∃ value, kind = .number value := by
  have halpha := not_isAlpha_of_isDigit hfirst
  cases h with
  | symbol symbol hhead => simp [(head?_spelling symbol hhead).2.1] at hfirst
  | keyword keyword hkeyword => simp [hkeyword] at halpha
  | identifier hword =>
      rcases hword with hletter | rfl
      · simp [hletter] at halpha
      · cases hfirst
  | number value _ => exact ⟨value, rfl⟩
  | string value hmark =>
      subst hmark
      cases hfirst

theorem string_of_eq (h : Opens first kind) (hfirst : first = '"') :
    ∃ value, kind = .string value := by
  subst hfirst
  cases h with
  | symbol symbol hhead => exact absurd rfl (head?_spelling symbol hhead).1
  | keyword keyword hkeyword => cases hkeyword
  | identifier hword => rcases hword with hletter | hletter <;> cases hletter
  | number value hdigit => cases hdigit
  | string value _ => exact ⟨value, rfl⟩

theorem word_of_isAlpha (h : Opens first kind) (hfirst : first.isAlpha ∨ first = '_') :
    (∃ keyword, kind = .keyword keyword) ∨ kind = .identifier := by
  cases h with
  | symbol symbol hhead =>
      obtain ⟨-, -, halpha, hunderscore⟩ := head?_spelling symbol hhead
      simp [halpha, hunderscore] at hfirst
  | keyword keyword _ => exact .inl ⟨keyword, rfl⟩
  | identifier _ => exact .inr rfl
  | number value hdigit =>
      rcases hfirst with hletter | rfl
      · simp [not_isAlpha_of_isDigit hdigit] at hletter
      · cases hdigit
  | string value hmark =>
      subst hmark
      rcases hfirst with hletter | hletter <;> cases hletter

theorem symbol_of_not (h : Opens first kind) (hquote : first ≠ '"') (hdigit : first.isDigit = false)
    (hword : ¬(first.isAlpha ∨ first = '_')) : ∃ symbol, kind = .symbol symbol := by
  cases h with
  | symbol symbol _ => exact ⟨symbol, rfl⟩
  | keyword keyword hkeyword => exact absurd (.inl hkeyword) hword
  | identifier hopens => exact absurd hopens hword
  | number value hopens => simp [hopens] at hdigit
  | string value hmark => exact absurd hmark hquote

end Opens

/-! ## Longest lexemes -/

section

variable {p : Char → Bool} {front text : List Char}

/-- What is of one sort in front of a text is no longer than all that is. -/
theorem length_le_takeWhile (h : front <+: text) (hfront : ∀ char ∈ front, p char) :
    front.length ≤ (text.takeWhile p).length := by
  obtain ⟨rest, rfl⟩ := h
  rw [List.takeWhile_append_of_pos hfront, List.length_append]
  exact Nat.le_add_right _ _

/-- Where something else follows, all that is of one sort has been taken. -/
theorem takeWhile_eq_of_prefix {char : Char} {more : List Char}
    (h : front ++ char :: more <+: text) (hfront : ∀ char ∈ front, p char)
    (hchar : p char = false) : text.takeWhile p = front ∧ char :: more <+: text.dropWhile p := by
  obtain ⟨rest, rfl⟩ := h
  rw [List.append_assoc, List.takeWhile_append_of_pos hfront, List.dropWhile_append_of_pos hfront]
  constructor
  · rw [List.cons_append, List.takeWhile_cons_of_neg (by simp [hchar]), List.append_nil]
  · rw [List.cons_append, List.dropWhile_cons_of_neg (by simp [hchar])]
    exact List.prefix_append (char :: more) rest

/-- Digits are no points. -/
theorem ne_point_of_isDigit {char : Char} (h : char.isDigit) : (char != '.') = true := by
  by_contra hpoint
  obtain rfl : char = '.' := by simpa using hpoint
  cases h

theorem decimal?_of_digits {digits : List Char} (h : IsDigits digits) :
    decimal? digits = some (decimalValue digits []) := by
  have hpoint : ∀ char ∈ digits, (char != '.') = true :=
    fun char hchar => ne_point_of_isDigit (h.2 char hchar)
  have htake : digits.takeWhile (· != '.') = digits := List.takeWhile_eq_self_iff.2 hpoint
  have hdrop : digits.dropWhile (· != '.') = [] := List.dropWhile_eq_nil_iff.2 hpoint
  have hall : digits.all Char.isDigit := List.all_eq_true.2 h.2
  simp [decimal?, htake, hdrop, hall, h.1]

theorem decimal?_of_fraction {whole fraction : List Char} (hwhole : IsDigits whole)
    (hfraction : IsDigits fraction) :
    decimal? (whole ++ '.' :: fraction) = some (decimalValue whole fraction) := by
  have hpoint : ∀ char ∈ whole, (char != '.') = true :=
    fun char hchar => ne_point_of_isDigit (hwhole.2 char hchar)
  have htake : (whole ++ '.' :: fraction).takeWhile (· != '.') = whole := by
    rw [List.takeWhile_append_of_pos hpoint, List.takeWhile_cons_of_neg (by simp), List.append_nil]
  have hdrop : (whole ++ '.' :: fraction).dropWhile (· != '.') = '.' :: fraction := by
    rw [List.dropWhile_append_of_pos hpoint, List.dropWhile_cons_of_neg (by simp)]
  have hall : (whole ++ fraction).all Char.isDigit := by
    rw [List.all_append, Bool.and_eq_true]
    exact ⟨List.all_eq_true.2 hwhole.2, List.all_eq_true.2 hfraction.2⟩
  simp only [decimal?, htake, hdrop, List.drop_one, List.tail_cons, hall]
  simp [hwhole.1]

/-- The text of a number can be read, and what is read is the number. -/
theorem Lexeme.decimal?_eq {value : Float} {text : List Char} (h : Lexeme (.number value) text) :
    decimal? text = some value := by
  cases h with
  | whole hdigits hnearest =>
      have hvalue := float_eq_of_toNat_toBits ((nearest_decimalValue text []).eq hnearest)
      rw [decimal?_of_digits hdigits, hvalue]
  | @fraction whole fraction _ hwhole hfraction hnearest =>
      have hvalue := float_eq_of_toNat_toBits ((nearest_decimalValue whole fraction).eq hnearest)
      rw [decimal?_of_fraction hwhole hfraction, hvalue]

/-- The lexemes that start with a digit. -/
theorem Lexeme.digits_of_isDigit {kind : Kind} {text rest : List Char} {first : Char}
    (h : Lexeme kind text) (hfront : text <+: first :: rest) (hfirst : first.isDigit) :
    IsDigits text ∨
      ∃ whole fraction, text = whole ++ '.' :: fraction ∧ IsDigits whole ∧ IsDigits fraction := by
  obtain ⟨value, rfl⟩ := (h.opens_of_prefix hfront).number_of_isDigit hfirst
  cases h with
  | whole hdigits _ => exact .inl hdigits
  | fraction hwhole hfraction _ => exact .inr ⟨_, _, rfl, hwhole, hfraction⟩

/-- The lexemes that start like a word are words. -/
theorem Lexeme.isWord {kind : Kind} {text rest : List Char} {first : Char} (h : Lexeme kind text)
    (hfront : text <+: first :: rest) (hfirst : first.isAlpha ∨ first = '_') : IsWord text := by
  rcases (h.opens_of_prefix hfront).word_of_isAlpha hfirst with ⟨keyword, rfl⟩ | rfl
  · cases h with
    | keyword keyword => exact Lexeme.isWord_keyword keyword
  · cases h with
    | identifier hword _ => exact hword

theorem IsWord.continuesWord {text : List Char} (h : IsWord text) :
    ∀ char ∈ text, continuesWord char := by
  cases text with
  | nil => exact h.elim
  | cons first rest =>
      intro char hchar
      rcases List.mem_cons.1 hchar with rfl | hrest
      · rcases h.1 with halpha | rfl
        · simp [LoxLang.continuesWord, Char.isAlphanum, halpha]
        · rfl
      · rcases h.2 char hrest with halpha | hdigit | rfl
        · simp [LoxLang.continuesWord, Char.isAlphanum, halpha]
        · simp [LoxLang.continuesWord, Char.isAlphanum, hdigit]
        · rfl

end

namespace Piece

variable {first : Char} {rest text after : List Char} {kind : Kind} {piece : Piece}

/-- Digits can be read, so that the value for what cannot be read is not taken. -/
theorem numberOf_of_digits {digits : List Char} (h : IsDigits digits) :
    numberOf digits = .lexeme (.number (decimalValue digits [])) digits := by
  rw [numberOf, decimal?_of_digits h, Option.getD_some]

theorem numberOf_of_fraction {whole fraction : List Char} (hwhole : IsDigits whole)
    (hfraction : IsDigits fraction) : numberOf (whole ++ '.' :: fraction) =
      .lexeme (.number (decimalValue whole fraction)) (whole ++ '.' :: fraction) := by
  rw [numberOf, decimal?_of_fraction hwhole hfraction, Option.getD_some]

theorem longest_number (hfirst : first.isDigit)
    (h : number first rest = (.lexeme kind text, after)) : Longest kind text (first :: rest) := by
  have htake : (first :: rest).takeWhile Char.isDigit = first :: rest.takeWhile Char.isDigit :=
    List.takeWhile_cons_of_pos hfirst
  have hdrop : (first :: rest).dropWhile Char.isDigit = rest.dropWhile Char.isDigit :=
    List.dropWhile_cons_of_pos hfirst
  have hwhole : IsDigits (first :: rest.takeWhile Char.isDigit) := by
    refine ⟨List.cons_ne_nil _ _, ?_⟩
    rw [← htake]
    exact fun char hchar => List.mem_takeWhile_imp hchar
  -- Digits alone are not longer than all digits, and a fraction follows all digits before it.
  have hdigits {longer : List Char} (hfront : longer <+: first :: rest)
      (hlonger : IsDigits longer) :
      longer.length ≤ (first :: rest.takeWhile Char.isDigit).length := by
    rw [← htake]
    exact length_le_takeWhile hfront hlonger.2
  have hpoint {whole fraction : List Char} (hfront : whole ++ '.' :: fraction <+: first :: rest)
      (hbefore : IsDigits whole) : whole = first :: rest.takeWhile Char.isDigit ∧
        '.' :: fraction <+: rest.dropWhile Char.isDigit := by
    rw [← htake, ← hdrop]
    obtain ⟨heq, hmore⟩ := takeWhile_eq_of_prefix hfront hbefore.2 rfl
    exact ⟨heq.symm, hmore⟩
  unfold number at h
  dsimp only at h
  split at h
  · next afterPoint hafter =>
      split at h
      · next hnone =>
          rw [numberOf_of_digits hwhole] at h
          cases h
          refine ⟨.whole hwhole (nearest_decimalValue _ _), ?_⟩
          intro other longer hlexeme hfront
          rcases hlexeme.digits_of_isDigit hfront hfirst with
            hlonger | ⟨whole, fraction, rfl, hbefore, hfraction⟩
          · exact hdigits hfront hlonger
          · obtain ⟨-, hmore⟩ := hpoint hfront hbefore
            rw [hafter] at hmore
            have hlength := length_le_takeWhile (List.cons_prefix_cons.1 hmore).2 hfraction.2
            rw [hnone] at hlength
            exact absurd (List.length_eq_zero_iff.1 (Nat.le_zero.1 hlength)) hfraction.1
      · next hsome =>
          have hfraction : IsDigits (afterPoint.takeWhile Char.isDigit) :=
            ⟨hsome, fun char hchar => List.mem_takeWhile_imp hchar⟩
          rw [numberOf_of_fraction hwhole hfraction] at h
          cases h
          refine ⟨.fraction hwhole hfraction (nearest_decimalValue _ _), ?_⟩
          intro other longer hlexeme hfront
          rcases hlexeme.digits_of_isDigit hfront hfirst with
            hlonger | ⟨whole, fraction, rfl, hbefore, hlonger⟩
          · refine Nat.le_trans (hdigits hfront hlonger) ?_
            rw [List.length_append]
            exact Nat.le_add_right _ _
          · obtain ⟨rfl, hmore⟩ := hpoint hfront hbefore
            rw [hafter] at hmore
            have hlength := length_le_takeWhile (List.cons_prefix_cons.1 hmore).2 hlonger.2
            simp only [List.length_append, List.length_cons]
            omega
  · next hnone =>
      rw [numberOf_of_digits hwhole] at h
      cases h
      refine ⟨.whole hwhole (nearest_decimalValue _ _), ?_⟩
      intro other longer hlexeme hfront
      rcases hlexeme.digits_of_isDigit hfront hfirst with
        hlonger | ⟨whole, fraction, rfl, hbefore, -⟩
      · exact hdigits hfront hlonger
      · obtain ⟨-, more, hmore⟩ := hpoint hfront hbefore
        exact absurd hmore.symm (hnone _)

theorem longest_word (hfirst : first.isAlpha ∨ first = '_')
    (h : word first rest = (.lexeme kind text, after)) : Longest kind text (first :: rest) := by
  have hcontinues : continuesWord first := by
    rcases hfirst with halpha | rfl
    · simp [continuesWord, Char.isAlphanum, halpha]
    · rfl
  have htake : (first :: rest).takeWhile continuesWord = first :: rest.takeWhile continuesWord :=
    List.takeWhile_cons_of_pos hcontinues
  have hword : IsWord (first :: rest.takeWhile continuesWord) := by
    refine ⟨hfirst, ?_⟩
    intro char hchar
    have hcontinues := List.mem_takeWhile_imp hchar
    simpa [continuesWord, Char.isAlphanum, or_assoc] using hcontinues
  have hlongest (other : Kind) (longer : List Char) (hlexeme : Lexeme other longer)
      (hfront : longer <+: first :: rest) :
      longer.length ≤ (first :: rest.takeWhile continuesWord).length := by
    rw [← htake]
    exact length_le_takeWhile hfront (hlexeme.isWord hfront hfirst).continuesWord
  unfold word at h
  cases h
  cases hkeyword : Keyword.ofSpelling? (String.ofList (first :: rest.takeWhile continuesWord)) with
  | some keyword =>
      refine ⟨?_, hlongest⟩
      have hspelling : keyword.spelling.toList = first :: rest.takeWhile continuesWord := by
        rw [Keyword.spelling_of_ofSpelling? hkeyword, String.toList_ofList]
      rw [← hspelling]
      exact .keyword keyword
  | none =>
      refine ⟨.identifier hword ?_, hlongest⟩
      intro keyword heq
      have hfound := Keyword.ofSpelling?_spelling keyword
      rw [← String.ofList_toList (s := keyword.spelling), heq, hkeyword] at hfound
      cases hfound

/-- A string ends at the first quotation mark behind its start. -/
theorem munches_quoted (h : quoted rest = (piece, after)) : piece.Munches after := by
  have hno : '"' ∉ rest.takeWhile (· != '"') := by
    intro hmark
    simpa using List.mem_takeWhile_imp hmark
  have happend := text_quoted rest
  rw [h] at happend
  unfold quoted at h
  dsimp only at h
  split at h
  · cases h
    exact .openString hno rfl
  · cases h
    have hlongest : ∀ other longer, Lexeme other longer → longer <+: '"' :: rest →
        longer.length ≤ ('"' :: rest.takeWhile (· != '"') ++ ['"']).length := by
      intro other longer hlexeme hfront
      obtain ⟨value, rfl⟩ := (hlexeme.opens_of_prefix hfront).string_of_eq rfl
      cases hlexeme with
      | @string inner hinner =>
          have hmore : inner ++ '"' :: [] <+: rest := (List.cons_prefix_cons.1 hfront).2
          have hinner' : ∀ char ∈ inner, (char != '"') = true := by
            intro char hchar
            simpa using ne_of_mem_of_not_mem hchar hinner
          obtain ⟨heq, -⟩ := takeWhile_eq_of_prefix hmore hinner' (by simp)
          rw [heq]
    have htext : '"' :: rest.takeWhile (· != '"') ++ ['"'] ++ after = '"' :: rest := happend
    refine .lexeme ⟨.string hno, ?_⟩ ?_
    · rw [htext]
      exact hlongest
    · simp

/-! ### Symbols -/

theorem spelling_of_withEqual? {symbol : Symbol} (h : Symbol.withEqual? first = some symbol) :
    symbol.spelling = [first, '='] := by
  unfold Symbol.withEqual? at h
  split at h <;> cases h <;> rfl

theorem spelling_of_ofChar? {symbol : Symbol} (h : Symbol.ofChar? first = some symbol) :
    symbol.spelling = [first] := by
  unfold Symbol.ofChar? at h
  split at h <;> cases h <;> rfl

/-- A symbol has one character, or two of which the second is an equals sign. -/
theorem spelling_cases (symbol : Symbol) :
    (∃ char, symbol.spelling = [char] ∧ Symbol.ofChar? char = some symbol) ∨
      ∃ char, symbol.spelling = [char, '='] ∧ Symbol.withEqual? char = some symbol := by
  cases symbol <;> first | exact .inl ⟨_, rfl, rfl⟩ | exact .inr ⟨_, rfl, rfl⟩

theorem ofChar?_ne_none_of_withEqual? {symbol : Symbol}
    (h : Symbol.withEqual? first = some symbol) : Symbol.ofChar? first ≠ none := by
  unfold Symbol.withEqual? at h
  split at h <;> cases h <;> simp [Symbol.ofChar?]

/-- What starts no blank, comment, string, number or word is a symbol, or else a character that
starts nothing. -/
theorem munches_symbolOrStray (hblank : isBlank first = false) (hquote : first ≠ '"')
    (hdigit : first.isDigit = false) (hword : ¬(first.isAlpha ∨ first = '_'))
    (hcomment : ¬['/', '/'] <+: first :: rest) (h : symbolOrStray first rest = (piece, after)) :
    piece.Munches after := by
  have happend := text_symbolOrStray first rest
  rw [h] at happend
  have hsymbol {other : Kind} {longer : List Char} (hlexeme : Lexeme other longer)
      (hfront : longer <+: first :: rest) : ∃ symbol : Symbol, symbol.spelling = longer := by
    obtain ⟨symbol, rfl⟩ :=
      (hlexeme.opens_of_prefix hfront).symbol_of_not hquote hdigit hword
    cases hlexeme with
    | symbol symbol => exact ⟨symbol, rfl⟩
  unfold symbolOrStray at h
  split at h
  · next symbol more hequal =>
      cases h
      have hspelling := spelling_of_withEqual? hequal
      have hlexeme : Lexeme (.symbol symbol) [first, '='] := hspelling ▸ .symbol symbol
      refine .lexeme ⟨hlexeme, ?_⟩ hcomment
      intro other longer hlonger hfront
      obtain ⟨found, rfl⟩ := hsymbol hlonger hfront
      rcases spelling_cases found with ⟨char, heq, -⟩ | ⟨char, heq, -⟩
      · simp [heq]
      · simp [heq]
  · next hnot =>
      split at h
      · next symbol hchar =>
          cases h
          have hspelling := spelling_of_ofChar? hchar
          have hlexeme : Lexeme (.symbol symbol) [first] := hspelling ▸ .symbol symbol
          refine .lexeme ⟨hlexeme, ?_⟩ hcomment
          intro other longer hlonger hfront
          obtain ⟨found, rfl⟩ := hsymbol hlonger hfront
          rcases spelling_cases found with ⟨char, heq, -⟩ | ⟨char, heq, hequal⟩
          · simp [heq]
          · -- An equals sign would have been taken with the character before it.
            rw [heq] at hfront
            obtain ⟨rfl, more, hmore⟩ := List.cons_prefix_cons.1 hfront
            exact absurd hmore.symm (hnot _ _ hequal)
      · next hnone =>
          cases h
          refine .stray ?_ hquote ?_
          · simpa [isBlank, and_assoc] using hblank
          · intro other longer hlonger hfront
            obtain ⟨found, rfl⟩ := hsymbol hlonger hfront
            rcases spelling_cases found with ⟨char, heq, hchar⟩ | ⟨char, heq, hequal⟩
            · rw [heq] at hfront
              obtain ⟨rfl, -⟩ := List.cons_prefix_cons.1 hfront
              cases hchar.symm.trans hnone
            · rw [heq] at hfront
              obtain ⟨rfl, -⟩ := List.cons_prefix_cons.1 hfront
              exact absurd hnone (ofChar?_ne_none_of_withEqual? hequal)

/-! ## Pieces -/

/-- A lexeme that does not start with a slash is no part of a comment. -/
theorem munches_of_longest (htext : text ++ after = first :: rest)
    (h : Longest kind text (first :: rest)) (hslash : first ≠ '/') :
    (lexeme kind text).Munches after := by
  rw [← htext] at h
  refine .lexeme h ?_
  rw [htext]
  intro hcomment
  exact hslash (List.cons_prefix_cons.1 hcomment).1.symm

theorem exists_lexeme_number (first : Char) (rest : List Char) :
    ∃ kind text, (number first rest).1 = .lexeme kind text := by
  unfold number
  dsimp only
  split
  · split <;> exact ⟨_, _, rfl⟩
  · exact ⟨_, _, rfl⟩

theorem munches_number (hfirst : first.isDigit) :
    (number first rest).1.Munches (number first rest).2 := by
  obtain ⟨kind, text, heq⟩ := exists_lexeme_number first rest
  have htext := text_number first rest
  rw [heq] at htext ⊢
  refine munches_of_longest htext (longest_number hfirst (Prod.ext heq rfl)) ?_
  rintro rfl
  cases hfirst

theorem munches_word (hfirst : first.isAlpha ∨ first = '_') :
    (word first rest).1.Munches (word first rest).2 := by
  refine munches_of_longest (text_word first rest) (longest_word hfirst rfl) ?_
  rintro rfl
  rcases hfirst with hletter | hletter <;> cases hletter

/-- A comment goes on to the end of its line. -/
theorem munches_comment (hrest : rest.head? = some '/') :
    (comment ('/' :: rest.takeWhile (· != '\n'))).Munches (rest.dropWhile (· != '\n')) := by
  obtain ⟨more, rfl⟩ := List.head?_eq_some_iff.1 hrest
  rw [List.takeWhile_cons_of_pos (by decide), List.dropWhile_cons_of_pos (by decide)]
  refine .comment ?_ ?_
  · intro hnewline
    simpa using List.mem_takeWhile_imp hnewline
  · intro char hchar
    have hstop := List.head?_dropWhile_not (· != '\n') more
    rw [Option.mem_def.1 hchar] at hstop
    simpa using hstop

/-- The first piece of a text is the one to be taken off. -/
theorem munches_next (first : Char) (rest : List Char) :
    (next first rest).1.Munches (next first rest).2 := by
  by_cases hblank : isBlank first
  · rw [next, if_pos hblank]
    refine .blank ?_
    simpa [isBlank, or_assoc] using hblank
  by_cases hcomment : (first == '/' && rest.head? == some '/') = true
  · rw [next, if_neg hblank, if_pos hcomment]
    simp only [Bool.and_eq_true, beq_iff_eq] at hcomment
    obtain ⟨rfl, hrest⟩ := hcomment
    exact munches_comment hrest
  by_cases hquote : (first == '"') = true
  · rw [next, if_neg hblank, if_neg hcomment, if_pos hquote]
    exact munches_quoted rfl
  by_cases hdigit : first.isDigit
  · rw [next, if_neg hblank, if_neg hcomment, if_neg hquote, if_pos hdigit]
    exact munches_number hdigit
  by_cases hword : startsWord first
  · rw [next, if_neg hblank, if_neg hcomment, if_neg hquote, if_neg hdigit, if_pos hword]
    refine munches_word ?_
    simpa [startsWord] using hword
  · rw [next, if_neg hblank, if_neg hcomment, if_neg hquote, if_neg hdigit, if_neg hword]
    refine munches_symbolOrStray (by simpa using hblank) (by simpa using hquote)
      (by simpa using hdigit) (by simpa [startsWord] using hword) ?_ rfl
    rintro ⟨more, hmore⟩
    obtain ⟨rfl, rfl⟩ := List.cons.inj hmore
    simp at hcomment

theorem splits_upTo (limit : Nat) (source : List Char) (h : source.length ≤ limit) :
    Splits source (upTo limit source) := by
  induction limit generalizing source with
  | zero =>
      obtain rfl : source = [] := List.eq_nil_of_length_eq_zero (Nat.le_zero.1 h)
      exact .nil
  | succ limit ih =>
      cases source with
      | nil => exact .nil
      | cons first rest =>
          have hlength := length_next first rest
          have hsplits := ih (next first rest).2 (hlength.trans (Nat.le_of_succ_le_succ h))
          have hcons := Splits.cons (munches_next first rest) hsplits
          rw [text_next] at hcons
          exact hcons

/-- A text falls apart into its pieces. -/
theorem splits_pieces (source : List Char) : Splits source (pieces source) :=
  splits_upTo source.length source (Nat.le_refl _)

/-- The texts of pieces that a text falls apart into make up the text. -/
theorem Splits.flatMap_text {source : List Char} {pieces : List Piece}
    (h : Splits source pieces) : pieces.flatMap Piece.text = source := by
  induction h with
  | nil => rfl
  | cons _ _ ih => rw [List.flatMap_cons, ih]

/-- The lexemes that a text falls apart into are lexemes. -/
theorem Splits.lexeme_of_mem {source text : List Char} {pieces : List Piece} {kind : Kind}
    (h : Splits source pieces) (hmem : .lexeme kind text ∈ pieces) : Lexeme kind text := by
  induction h with
  | nil => cases hmem
  | cons hmunches _ ih =>
      rcases List.mem_cons.1 hmem with rfl | hrest
      · cases hmunches with
        | lexeme hlongest _ => exact hlongest.1
      · exact ih hrest

end Piece

/-- The bytes between two texts are those of the text that stands there. -/
theorem extract_toUTF8 (before between after : List Char) :
    let start := (String.ofList before).utf8ByteSize
    let size := (String.ofList between).utf8ByteSize
    (String.ofList (before ++ between ++ after)).toUTF8.extract start (start + size) =
      (String.ofList between).toUTF8 := by
  intro start size
  have hsize : ((String.ofList before).toByteArray ++ (String.ofList between).toByteArray).size =
      start + size := ByteArray.size_append
  have hbetween : ((String.ofList before).toByteArray ++
      (String.ofList between).toByteArray).extract start (start + size) =
        (String.ofList between).toByteArray :=
    ByteArray.extract_append_eq_right rfl rfl
  rw [String.ofList_append, String.ofList_append]
  simp only [String.toUTF8, String.toByteArray_append]
  rw [ByteArray.extract_append, hbetween, hsize, Nat.sub_self]
  simp

/-- A source text falls apart into pieces, one after the other and without a gap, each of which is
the longest lexeme at its place or else a blank, a comment, a stray character or an open string.  In
bytes too each piece is a text of its own.  The text of each number can be read, and what is read is
the value of the number.  The items of the text are the tokens and the faults of the pieces in
order. -/
theorem TokenStream.scans_by_maximal_munch (source : String) :
    let pieces := Piece.pieces source.toList
    Piece.Splits source.toList pieces ∧ pieces.flatMap Piece.text = source.toList ∧
    (∀ before piece after, pieces = before ++ piece :: after →
      let start := (String.ofList (before.flatMap Piece.text)).utf8ByteSize
      let size := (String.ofList piece.text).utf8ByteSize
      source.toUTF8.extract start (start + size) = (String.ofList piece.text).toUTF8) ∧
    (∀ value text, .lexeme (.number value) text ∈ pieces → decimal? text = some value) ∧
    (ofSource source).items.map (Item.mapLine fun _ => 0) = pieces.filterMap (Piece.item? 0) := by
  intro pieces
  have hsplits : Piece.Splits source.toList pieces := Piece.splits_upTo _ _ (Nat.le_refl _)
  refine ⟨hsplits, hsplits.flatMap_text, ?_,
    fun value text hmem => (hsplits.lexeme_of_mem hmem).decimal?_eq,
    map_itemsFrom_const 1 0 pieces⟩
  intro before piece after heq start size
  have htext : before.flatMap Piece.text ++ piece.text ++ after.flatMap Piece.text =
      source.toList := by
    rw [← hsplits.flatMap_text, heq, List.flatMap_append, List.flatMap_cons, List.append_assoc]
  have hextract := extract_toUTF8 (before.flatMap Piece.text) piece.text
    (after.flatMap Piece.text)
  rw [htext, String.ofList_toList] at hextract
  exact hextract

end LoxLang
