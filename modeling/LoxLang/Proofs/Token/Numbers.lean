import LoxLang.Proofs.Decimal.Order
import LoxLang.Proofs.Decimal.Whole
import LoxLang.Proofs.Token.Spacing
import LoxLang.Token.Listing
import LoxLang.Value.Basic

/-!
# Numbers and their texts

Printed numbers and the numbers in a token listing are numerals that read back as the numbers
(`Value.number_text_reads_back`, `Token.number_literal`).  The limits from which on, or below which,
a layout writes an exponent are given by powers of ten, but what is compared with them are numbers;
`IsPower` is what makes the two agree.
-/

namespace LoxLang

/-! ## Numbers in a source text -/

theorem toNat_toBits_of_signBit {x : Float} (hsign : Layout.signBit x = false) :
    x.toBits.toNat % 2 ^ 63 = x.toBits.toNat := by
  have hplus : x.toBits.toNat / 2 ^ 63 ≠ 1 := beq_eq_false_iff_ne.1 hsign
  have hlt := x.toBits.toNat_lt
  omega

/-- A number that is nearest to another one without a sign has no sign. -/
theorem signBit_of_nearest {number : ℚ} {x : Float}
    (h : Magnitude.Nearest number x.toBits.toNat) : Layout.signBit x = false := by
  obtain ⟨found, -, hbits⟩ := h
  have hplus : x.toBits.toNat / 2 ^ 63 ≠ 1 := by omega
  exact beq_eq_false_iff_ne.2 hplus

/-- A decimal that rounds to a number without a sign has this number as its value. -/
theorem decimalValue_eq {x : Float} (hfinite : x.isFinite) (hsign : Layout.signBit x = false)
    {whole fraction : List Char} (h : (Magnitude.ofFloat x).Rounds (pointed whole fraction)) :
    decimalValue whole fraction = x := by
  have hbits := toNat_toBits_of_signBit hsign
  rw [Magnitude.ofFloat_eq_ofBits, hbits] at h
  have hgreatest := isFinite_iff.1 hfinite
  rw [hbits] at hgreatest
  exact float_eq_of_toNat_toBits
    ((nearest_ofScientific _ _).eq (h.nearest hgreatest))

namespace Numeral

variable {n : Numeral}

/-- A numeral without a sign and without an exponent is a number in a source text. -/
theorem Formed.lexeme (h : n.Formed) (plus : Bool) (hsign : n.negative = false)
    (hexponent : n.exponent = none) :
    Lexeme (.number (decimalValue n.whole n.fraction)) (n.text plus) := by
  have htext : n.text plus =
      n.whole ++ (if n.fraction.isEmpty then [] else '.' :: n.fraction) := by
    rw [text, hsign, hexponent, if_neg Bool.false_ne_true, List.nil_append]
    exact List.append_nil _
  rw [htext]
  cases hfraction : n.fraction with
  | nil =>
      have hwhole := Lexeme.whole h.whole (nearest_decimalValue _ _)
      rwa [List.isEmpty_nil, if_pos rfl, List.append_nil]
  | cons first more =>
      have hbehind : IsDigits (first :: more) :=
        ⟨List.cons_ne_nil _ _, hfraction ▸ h.fraction⟩
      exact .fraction h.whole hbehind (nearest_decimalValue _ _)

/-- Such a text is on one line. -/
theorem Formed.newline_notMem (h : n.Formed) (plus : Bool) (hsign : n.negative = false)
    (hexponent : n.exponent = none) : '\n' ∉ n.text plus := by
  rw [text, hsign, hexponent]
  intro hmem
  have hdigit {digits : List Char} (hdigits : ∀ char ∈ digits, char.isDigit) : '\n' ∉ digits :=
    fun hnewline => absurd (hdigits '\n' hnewline) (by decide)
  have hwhole := hdigit h.whole.2
  have hfraction := hdigit h.fraction
  have hpoint : '\n' ∉ if n.fraction.isEmpty then [] else '.' :: n.fraction := by
    split
    · exact List.not_mem_nil
    · exact List.not_mem_cons_of_ne_of_not_mem (by decide) hfraction
  have hnone : '\n' ∉ exponentText plus none := List.not_mem_nil
  rw [if_neg Bool.false_ne_true, List.nil_append] at hmem
  rcases List.mem_append.1 hmem with hfront | hend
  · exact (List.mem_append.1 hfront).elim hwhole hpoint
  · exact hnone hend

end Numeral

namespace TokenStream

/-- A text that is a lexeme without newlines gives this one token. -/
theorem ofSource_lexeme {kind : Kind} {text : String} (h : Lexeme kind text.toList)
    (hline : '\n' ∉ text.toList) :
    ofSource text = ⟨[.token ⟨kind, text, 1⟩], 1⟩ := by
  have hsplits : Piece.Splits text.toList [.lexeme kind text.toList] := by
    have hmunches : (Piece.lexeme kind text.toList).Munches [] := h.munches_of_blank (by simp)
    have hcons := Piece.Splits.cons hmunches .nil
    rwa [List.append_nil] at hcons
  have hnewlines : newlines text.toList = 0 := List.count_eq_zero.2 hline
  rw [ofSource, ofChars, ← hsplits.eq_pieces]
  simp [itemsFrom, Piece.item?, Piece.text, hnewlines]

end TokenStream

/-! ## Exponents -/

/-- A positive number that has a power of ten as its shortest decimal. -/
structure IsPower (tie : Tie) (power : ℤ) (x : Float) : Prop where
  pos : 0 < x.toBits.toNat
  lt : x.toBits.toNat < 2047 * 2 ^ 52
  value : ((Magnitude.ofBits x.toBits.toNat).shortest tie).value = 10 ^ power

namespace IsPower

variable {tie : Tie} {power : ℤ} {least x : Float}

theorem of_shortest (zeros : Nat) (hpos : 0 < x.toBits.toNat)
    (hlt : x.toBits.toNat < 2047 * 2 ^ 52)
    (h : (Magnitude.ofBits x.toBits.toNat).shortest tie = ⟨10 ^ zeros, power - zeros⟩) :
    IsPower tie power x := by
  refine ⟨hpos, hlt, ?_⟩
  rw [h, Decimal.value, Nat.cast_pow, ← zpow_natCast, Nat.cast_ofNat, ← zpow_add₀ (by norm_num),
    add_sub_cancel]

theorem le_abs_iff (h : IsPower tie power least) (hfinite : x.isFinite) :
    least ≤ x.abs ↔ least.toBits.toNat ≤ x.toBits.toNat % 2 ^ 63 := by
  have habs := toNat_toBits_abs hfinite
  rw [← habs]
  exact le_iff_toNat_toBits_le h.lt (habs ▸ isFinite_iff.1 hfinite)

theorem abs_lt_iff (h : IsPower tie power least) (hfinite : x.isFinite) :
    x.abs < least ↔ x.toBits.toNat % 2 ^ 63 < least.toBits.toNat := by
  have habs := toNat_toBits_abs hfinite
  rw [← habs]
  exact lt_iff_toNat_toBits_lt (habs ▸ isFinite_iff.1 hfinite) h.lt

end IsPower

theorem abs_pos_iff {x : Float} (hfinite : x.isFinite) :
    0 < x.abs ↔ 0 < x.toBits.toNat % 2 ^ 63 := by
  have habs := toNat_toBits_abs hfinite
  have hzero : (0 : Float).toBits.toNat = 0 := by decide
  rw [lt_iff_toNat_toBits_lt (by rw [hzero]; norm_num) (habs ▸ isFinite_iff.1 hfinite), hzero, habs]

/-- A layout with two limits writes an exponent from the one on and below the other, and not for
zero. -/
theorem Layout.isSome_exponent_iff {l : Layout} {lower upper : ℤ} {small great x : Float}
    (hpositional : ∀ order, l.positional order = (lower ≤ order && order < upper))
    (hzero : lower ≤ 0 ∧ 0 < upper) (hsmall : IsPower l.tie lower small)
    (hgreat : IsPower l.tie upper great) (hfinite : x.isFinite) :
    (l.numeral x).exponent.isSome ↔ great ≤ x.abs ∨ (0 < x.abs ∧ x.abs < small) := by
  rw [hgreat.le_abs_iff hfinite, hsmall.abs_lt_iff hfinite, abs_pos_iff hfinite]
  have hexponent (negative : Bool) (digits : List Char) (order : Int) :
      (l.ofDigits negative digits order).exponent.isSome ↔ order < lower ∨ upper ≤ order := by
    unfold ofDigits
    rw [hpositional]
    split
    · next hpositional =>
        rw [Bool.and_eq_true, decide_eq_true_iff, decide_eq_true_iff] at hpositional
        exact iff_of_false Bool.false_ne_true (by omega)
    · next hscientific =>
        rw [Bool.and_eq_true, decide_eq_true_iff, decide_eq_true_iff] at hscientific
        exact iff_of_true rfl (by omega)
  unfold numeral
  dsimp only
  rw [hexponent, Magnitude.ofFloat_eq_ofBits]
  generalize x.toBits.toNat % 2 ^ 63 = bits
  obtain ⟨rfl, h⟩ | ⟨hpos, h, -⟩ := l.digits_cases bits
  · have := hgreat.pos
    rw [h]
    dsimp only
    omega
  · have hlower := Magnitude.le_order_shortest_iff hsmall.pos hsmall.value hpos
    have hupper := Magnitude.le_order_shortest_iff hgreat.pos hgreat.value hpos
    rw [h]
    dsimp only
    omega

/-- For numbers without a sign, the limits between which there is no exponent. -/
theorem Layout.exponent_eq_none_iff {l : Layout} {lower upper : ℤ} {small great x : Float}
    (hpositional : ∀ order, l.positional order = (lower ≤ order && order < upper))
    (hzero : lower ≤ 0 ∧ 0 < upper) (hsmall : IsPower l.tie lower small)
    (hgreat : IsPower l.tie upper great) (hfinite : x.isFinite) (hsign : signBit x = false) :
    (l.numeral x).exponent = none ↔ x = 0 ∨ (small ≤ x ∧ x < great) := by
  have hbits := toNat_toBits_of_signBit hsign
  have habs : x.abs = x := by
    refine float_eq_of_toNat_toBits ?_
    rw [toNat_toBits_abs hfinite, hbits]
  have hnone : x = 0 ↔ x.toBits.toNat = 0 := by
    have hnothing : (0 : Float).toBits.toNat = 0 := by decide
    rw [← hnothing]
    exact ⟨fun h => h ▸ rfl, float_eq_of_toNat_toBits⟩
  have hgreater := hgreat.pos
  have hpos := abs_pos_iff hfinite
  have hle := hsmall.le_abs_iff hfinite
  have hlt := hsmall.abs_lt_iff hfinite
  have hge := hgreat.le_abs_iff hfinite
  have hgt := hgreat.abs_lt_iff hfinite
  have hsome := isSome_exponent_iff hpositional hzero hsmall hgreat hfinite
  rw [habs] at hpos hle hlt hge hgt hsome
  rw [hpos, hlt, hge, hbits] at hsome
  rw [← Option.not_isSome_iff_eq_none, hsome, hnone, hle, hgt, hbits]
  omega

/-! ## Printed numbers -/

namespace Value

theorem isPower_1e21 : IsPower numberLayout.tie 21 1e21 :=
  .of_shortest 0 (by decide) (by decide) (by decide)

theorem isPower_1e_neg6 : IsPower numberLayout.tie (-6) 1e-6 :=
  .of_shortest 1 (by decide) (by decide) (by decide)

theorem negative_numeral (x : Float) : (numberLayout.numeral x).negative = Layout.signBit x := by
  have hsigned : (Layout.signBit x && ((Magnitude.ofFloat x).mantissa != 0 ||
      numberLayout.signedZero)) = Layout.signBit x := by
    rw [show numberLayout.signedZero = true from rfl, Bool.or_true, Bool.and_true]
  unfold Layout.numeral Layout.ofDigits
  dsimp only
  rw [hsigned]
  split <;> rfl

theorem isSome_exponent_numeral {x : Float} (hfinite : x.isFinite) :
    (numberLayout.numeral x).exponent.isSome ↔ 1e21 ≤ x.abs ∨ (0 < x.abs ∧ x.abs < 1e-6) :=
  Layout.isSome_exponent_iff (fun _ => rfl) (by decide) isPower_1e_neg6 isPower_1e21 hfinite

/-- Numbers that are printed without a sign and without an exponent. -/
theorem plain_of_range {x : Float} (hfinite : x.isFinite)
    (hrange : x = 0 ∨ (1e-6 ≤ x ∧ x < 1e21)) :
    Layout.signBit x = false ∧ (numberLayout.numeral x).exponent = none := by
  have hsign : Layout.signBit x = false := by
    rcases hrange with rfl | ⟨hle, -⟩
    · decide
    · by_contra hminus
      exact not_le_of_signBit isPower_1e_neg6.pos isPower_1e_neg6.lt hfinite
        (Bool.not_eq_false _ ▸ hminus) hle
  exact ⟨hsign, (Layout.exponent_eq_none_iff (fun _ => rfl) (by decide) isPower_1e_neg6
    isPower_1e21 hfinite hsign).2 hrange⟩

/-- Printed numbers read back.  The text of a finite number is a numeral without idle zeros, with
the sign of the number and an absolute value that rounds to the number's own; it has an exponent for
absolute values from 10^21 on and for those below 10^-6 that are not zero.  Scanning the text of
zero or of a number between these limits gives this number and nothing else. -/
theorem number_text_reads_back {x : Float} (hfinite : x.isFinite) :
    (∃ numeral : Numeral, numeral.Neat ∧ (number x).text.toList = numeral.text true ∧
      numeral.negative = Layout.signBit x ∧
      (Magnitude.ofFloat x).Rounds numeral.magnitude ∧
      (numeral.exponent.isSome ↔ 1e21 ≤ x.abs ∨ (0 < x.abs ∧ x.abs < 1e-6))) ∧
    (x = 0 ∨ (1e-6 ≤ x ∧ x < 1e21) →
      TokenStream.ofSource (number x).text =
        ⟨[.token ⟨.number x, (number x).text, 1⟩], 1⟩) := by
  have htext : (number x).text.toList = (numberLayout.numeral x).text true :=
    numberLayout.toList_write rfl rfl (isNaN_eq_false_of_isFinite hfinite)
      (isInf_eq_false_of_isFinite hfinite)
  have hrounds := numberLayout.rounds_numeral x
  refine ⟨⟨numberLayout.numeral x, numberLayout.neat_numeral rfl rfl x, htext, negative_numeral x,
    hrounds, isSome_exponent_numeral hfinite⟩, fun hrange => ?_⟩
  obtain ⟨hsign, hexponent⟩ := plain_of_range hfinite hrange
  have hformed := numberLayout.formed_numeral x
  have hnegative := (negative_numeral x).trans hsign
  rw [Numeral.magnitude, hexponent, Option.getD_none, zpow_zero, mul_one] at hrounds
  have hlexeme := hformed.lexeme true hnegative hexponent
  rw [decimalValue_eq hfinite hsign hrounds, ← htext] at hlexeme
  exact TokenStream.ofSource_lexeme hlexeme
    (htext ▸ hformed.newline_notMem true hnegative hexponent)

/-- The least number that is printed without an exponent. -/
theorem number_text_reads_back_millionth :
    (1e-6 : Float).isFinite ∧ (number 1e-6).text = "0.000001" ∧
    TokenStream.ofSource "0.000001" = ⟨[.token ⟨.number 1e-6, "0.000001", 1⟩], 1⟩ := by
  have hfinite : (1e-6 : Float).isFinite := by decide
  have hrange : (1e-6 : Float) ≤ 1e-6 ∧ (1e-6 : Float) < 1e21 := by decide
  have htext : (number 1e-6).text = "0.000001" := by decide
  have hstream := (number_text_reads_back hfinite).2 (.inr hrange)
  rw [htext] at hstream
  exact ⟨hfinite, htext, hstream⟩

end Value

/-! ## Listed numbers -/

namespace Token

theorem isPower_1e16 : IsPower literalLayout.tie 16 1e16 :=
  .of_shortest 0 (by decide) (by decide) (by decide)

theorem isPower_1e_neg4 : IsPower literalLayout.tie (-4) 1e-4 :=
  .of_shortest 0 (by decide) (by decide) (by decide)

theorem negative_literal {x : Float} (hsign : Layout.signBit x = false) :
    (literalLayout.numeral x).negative = false := by
  unfold Layout.numeral Layout.ofDigits
  dsimp only
  rw [hsign, Bool.false_and]
  split <;> rfl

/-- Without an exponent there is always a digit behind the point. -/
theorem fraction_literal_ne_nil {x : Float} (h : (literalLayout.numeral x).exponent = none) :
    (literalLayout.numeral x).fraction ≠ [] := by
  have hfilled (digits : List Char) : literalLayout.filled digits ≠ [] := by
    unfold Layout.filled
    cases digits <;> exact List.cons_ne_nil _ _
  unfold Layout.numeral Layout.ofDigits at h ⊢
  dsimp only at h ⊢
  split at h
  · next hpositional =>
      rw [if_pos hpositional]
      exact hfilled _
  · cases h

/-- A whole number below 10^15 is listed with all its digits. -/
theorem literal_whole {x : Float} {n : Nat} (hsign : Layout.signBit x = false)
    (hwhole : (Magnitude.ofFloat x).whole? = some n) (hlt : n < 10 ^ 15) :
    literalLayout.numeral x = ⟨false, Nat.toDigits 10 n, ['0'], none⟩ := by
  have hvalue := Magnitude.value_of_whole? hwhole
  unfold Layout.numeral
  dsimp only
  rw [hsign, Bool.false_and]
  rw [Magnitude.ofFloat_eq_ofBits] at hvalue ⊢
  generalize x.toBits.toNat % 2 ^ 63 = bits at hvalue ⊢
  obtain ⟨rfl, h⟩ | ⟨hpos, h, hne⟩ := literalLayout.digits_cases bits
  · have hzero : (Magnitude.ofBits 0).value = 0 := mul_eq_zero_of_left Nat.cast_zero _
    rw [hzero] at hvalue
    obtain rfl : 0 = n := by exact_mod_cast hvalue
    rw [h]
    rfl
  · have hn : 0 < n := by
      have hvalue' : 0 < (Magnitude.ofBits bits).value :=
        mul_pos (by exact_mod_cast Magnitude.mantissa_ofBits_pos hpos) (Magnitude.pos_two_zpow _)
      rw [hvalue] at hvalue'
      exact_mod_cast hvalue'
    obtain ⟨point, zeros, hshortest, hproduct⟩ :=
      Magnitude.exists_shortest_eq hvalue hn (by omega) literalLayout.tie
    rw [hshortest] at h hne
    have hpositional : literalLayout.positional (Decimal.order ⟨point, zeros⟩) := by
      have hzero := (Decimal.le_order_iff hne 0).2 (by
        rw [Decimal.value, zpow_zero, zpow_natCast]
        exact_mod_cast Nat.succ_le_of_lt (hproduct ▸ hn))
      have hmany : ¬16 ≤ Decimal.order ⟨point, zeros⟩ := by
        rw [Decimal.le_order_iff hne, Decimal.value, zpow_natCast, not_le]
        have hreal : (point * 10 ^ zeros : ℚ) < 10 ^ 15 := by exact_mod_cast hproduct.symm ▸ hlt
        exact hreal.trans (by norm_num)
      show (decide (-4 ≤ _) && decide (_ < 16)) = true
      rw [Bool.and_eq_true, decide_eq_true_iff, decide_eq_true_iff]
      omega
    rw [h]
    dsimp only
    rw [Layout.ofDigits, if_pos hpositional, Layout.places_whole (Nat.pos_of_ne_zero hne), hproduct]
    rfl

/-- The value of a number in a source text has no sign. -/
theorem signBit_of_mem_tokens {source : String} {token : Token} {value : Float}
    (htoken : token ∈ (TokenStream.ofSource source).tokens) (hkind : token.kind = .number value) :
    Layout.signBit value = false := by
  have hlexeme := TokenStream.lexeme_of_mem_tokens htoken
  rw [hkind] at hlexeme
  generalize token.lexeme.toList = text at hlexeme
  cases hlexeme with
  | whole _ hnearest => exact signBit_of_nearest hnearest
  | fraction _ _ hnearest => exact signBit_of_nearest hnearest

/-- What a listing shows for a number with a finite value.  It is a numeral without a sign that
stands for a number that rounds to the value.  For zero and for values from 10^-4 on and below 10^16
it has no exponent and at least one digit behind its point, and read as source text it has the value
of the number.  A whole value below 10^15 has all its digits in front of the point and a zero
behind. -/
theorem number_literal {source : String} {token : Token} {value : Float}
    (htoken : token ∈ (TokenStream.ofSource source).tokens) (hkind : token.kind = .number value)
    (hfinite : value.isFinite) :
    (∃ numeral : Numeral, numeral.Formed ∧ numeral.negative = false ∧
      (Entry.ofToken token).literal.toList = numeral.text false ∧
      (Magnitude.ofFloat value).Rounds numeral.magnitude ∧
      (numeral.exponent = none ↔ value = 0 ∨ (1e-4 ≤ value ∧ value < 1e16)) ∧
      (numeral.exponent = none → numeral.fraction ≠ [] ∧
        decimalValue numeral.whole numeral.fraction = value)) ∧
    ∀ n, (Magnitude.ofFloat value).whole? = some n → n < 10 ^ 15 →
      (Entry.ofToken token).literal.toList = Nat.toDigits 10 n ++ ['.', '0'] := by
  have hsign := signBit_of_mem_tokens htoken hkind
  have hliteral : (Entry.ofToken token).literal = literalLayout.write value := by
    show token.kind.literal = _
    rw [hkind]
    rfl
  have htext : (Entry.ofToken token).literal.toList = (literalLayout.numeral value).text false := by
    rw [hliteral]
    exact literalLayout.toList_write rfl rfl (isNaN_eq_false_of_isFinite hfinite)
      (isInf_eq_false_of_isFinite hfinite)
  have hrounds := literalLayout.rounds_numeral value
  refine ⟨⟨literalLayout.numeral value, literalLayout.formed_numeral value, negative_literal hsign,
    htext, hrounds, ?_, fun hexponent => ⟨fraction_literal_ne_nil hexponent, ?_⟩⟩, ?_⟩
  · exact Layout.exponent_eq_none_iff (fun _ => rfl) (by decide) isPower_1e_neg4 isPower_1e16
      hfinite hsign
  · rw [Numeral.magnitude, hexponent, Option.getD_none, zpow_zero, mul_one] at hrounds
    exact decimalValue_eq hfinite hsign hrounds
  · intro n hwhole hlt
    rw [htext, literal_whole hsign hwhole hlt]
    exact List.append_nil _

theorem number_literal_three :
    (⟨.number 3, "3", 1⟩ : Token) ∈ (TokenStream.ofSource "3").tokens ∧ (3 : Float).isFinite ∧
    (Entry.ofToken ⟨.number 3, "3", 1⟩).literal.toList = ['3', '.', '0'] := by
  have htoken : (⟨.number 3, "3", 1⟩ : Token) ∈ (TokenStream.ofSource "3").tokens := by
    decide
  have hfinite : (3 : Float).isFinite := by decide
  have hwhole : (Magnitude.ofFloat 3).whole? = some 3 := by decide
  exact ⟨htoken, hfinite, (number_literal htoken rfl hfinite).2 3 hwhole (by norm_num)⟩

/-- Not every number is listed with a fraction: one that has a single digit and an exponent has
none. -/
theorem not_number_literal_has_fraction :
    ¬∀ (source : String) (token : Token) (value : Float),
      token ∈ (TokenStream.ofSource source).tokens → token.kind = .number value → value.isFinite →
        ∃ before digit after, (Entry.ofToken token).literal.toList =
          before ++ '.' :: digit :: after ∧
          digit.isDigit := by
  intro hall
  obtain ⟨before, digit, after, htext, -⟩ := hall "0.00001" ⟨.number 1e-5, "0.00001", 1⟩ 1e-5
    (by decide) rfl (by decide)
  have hliteral : (Entry.ofToken ⟨.number 1e-5, "0.00001", 1⟩).literal.toList =
      ['1', 'e', '-', '5'] := by decide
  have hpoint : '.' ∉ ['1', 'e', '-', '5'] := by decide
  rw [← hliteral, htext] at hpoint
  exact hpoint (List.mem_append_right before List.mem_cons_self)

end Token

end LoxLang
