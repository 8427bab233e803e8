import LoxLang.Decimal.Layout
import LoxLang.Proofs.Decimal.Shortest
import LoxLang.Proofs.Token.Munch

/-!
# Numerals

A numeral has digits in front of a point, digits behind it, and perhaps an exponent.  What a layout
writes for a finite number is a numeral (`Layout.toList_write`) that stands for a number that rounds
to it (`Layout.rounds_numeral`).
-/

namespace LoxLang

/-! ## Digits -/

theorem isDigit_of_mem_replicate {n : Nat} :
    ∀ char ∈ List.replicate n '0', char.isDigit := by
  intro char hchar
  rw [List.eq_of_mem_replicate hchar]
  rfl

theorem isDigits_replicate {n : Nat} (hn : n ≠ 0) : IsDigits (List.replicate n '0') :=
  ⟨by simpa using hn, isDigit_of_mem_replicate⟩

theorem IsDigits.append {first second : List Char} (hfirst : ∀ char ∈ first, char.isDigit)
    (hsecond : ∀ char ∈ second, char.isDigit) (hne : first ++ second ≠ []) :
    IsDigits (first ++ second) :=
  ⟨hne, fun char hchar => (List.mem_append.1 hchar).elim (hfirst char) (hsecond char)⟩

/-- A positive whole number is written without a zero in front. -/
theorem head?_toDigits_ne {n : Nat} (hn : 0 < n) : (Nat.toDigits 10 n).head? ≠ some '0' := by
  induction n using Nat.strongRecOn with
  | ind n ih =>
      rcases Nat.lt_or_ge n 10 with hlt | hge
      · rw [Nat.toDigits_of_lt_base hlt]
        intro hzero
        have hall : ∀ digit : Fin 10, digit.val.digitChar = '0' → digit.val = 0 := by decide
        exact hn.ne' (hall ⟨n, hlt⟩ (Option.some.inj hzero))
      · rw [Nat.toDigits_of_base_le (by decide) hge,
          List.head?_append_of_ne_nil _ Nat.toDigits_ne_nil]
        exact ih (n / 10) (Nat.div_lt_self hn (by decide)) (Nat.div_pos hge (by decide))

/-- The fraction `.0` adds nothing. -/
theorem pointed_zero (whole : List Char) : pointed whole ['0'] = Nat.ofDigitChars 10 whole 0 := by
  have hzero (init : Nat) : Nat.ofDigitChars 10 ['0'] init = 10 * init := rfl
  rw [pointed, Nat.ofDigitChars_append, hzero, List.length_singleton]
  push_cast
  ring

namespace Decimal

/-! ## Significant digits -/

/-- All digits are the significant ones and zeros behind them. -/
theorem exists_toDigits_eq (d : Decimal) :
    ∃ zeros, Nat.toDigits 10 d.coefficient = d.significant ++ List.replicate zeros '0' := by
  let digits := (Nat.toDigits 10 d.coefficient).reverse
  refine ⟨(digits.takeWhile (· == '0')).length, ?_⟩
  have hzeros : (digits.takeWhile (· == '0')).reverse =
      List.replicate (digits.takeWhile (· == '0')).length '0' := by
    refine List.eq_replicate_iff.2 ⟨List.length_reverse, fun char hchar => ?_⟩
    have hmem := List.mem_takeWhile_imp (List.mem_reverse.1 hchar)
    exact eq_of_beq hmem
  have hsplit := List.takeWhile_append_dropWhile (p := (· == '0')) (l := digits)
  have hreverse := congrArg List.reverse hsplit
  rw [List.reverse_append, List.reverse_reverse, hzeros] at hreverse
  exact hreverse.symm

theorem isDigit_of_mem_significant {d : Decimal} :
    ∀ char ∈ d.significant, char.isDigit := by
  intro char hchar
  obtain ⟨zeros, hdigits⟩ := d.exists_toDigits_eq
  refine Nat.isDigit_of_mem_toDigits (b := 10) (n := d.coefficient) (by decide) (by decide) ?_
  rw [hdigits]
  exact List.mem_append_left _ hchar

/-- A decimal is the number that its significant digits say, its order telling where they start. -/
theorem value_eq (d : Decimal) :
    d.value = Nat.ofDigitChars 10 d.significant 0 * 10 ^ (d.order + 1 - d.significant.length) := by
  obtain ⟨zeros, hdigits⟩ := d.exists_toDigits_eq
  have hcoefficient : d.coefficient = 10 ^ zeros * Nat.ofDigitChars 10 d.significant 0 := by
    rw [← Nat.ofDigitChars_replicate_zero, ← Nat.ofDigitChars_append, ← hdigits,
      Nat.ofDigitChars_ten_toDigits]
  by_cases hzero : d.coefficient = 0
  · have hsignificant : Nat.ofDigitChars 10 d.significant 0 = 0 := by
      rw [hzero] at hcoefficient
      exact (Nat.mul_eq_zero.1 hcoefficient.symm).resolve_left (by positivity)
    rw [value, hzero, hsignificant]
    simp
  · have hlength := congrArg List.length hdigits
    rw [List.length_append, List.length_replicate] at hlength
    have horder : d.order + 1 - d.significant.length = zeros + d.exponent := by
      rw [order, if_neg hzero, hlength]
      push_cast
      ring
    rw [value, horder, hcoefficient, zpow_add₀ (by norm_num), zpow_natCast]
    push_cast
    ring

theorem significant_ne_nil {d : Decimal} (h : d.coefficient ≠ 0) : d.significant ≠ [] := by
  intro hnil
  obtain ⟨zeros, hdigits⟩ := d.exists_toDigits_eq
  have hvalue := Nat.ofDigitChars_ten_toDigits (n := d.coefficient)
  rw [hdigits, hnil, List.nil_append, Nat.ofDigitChars_replicate_zero, Nat.mul_zero] at hvalue
  exact h hvalue.symm

theorem head?_significant_ne {d : Decimal} (h : d.coefficient ≠ 0) :
    d.significant.head? ≠ some '0' := by
  have hhead := head?_toDigits_ne (Nat.pos_of_ne_zero h)
  obtain ⟨zeros, hdigits⟩ := d.exists_toDigits_eq
  rwa [hdigits, List.head?_append_of_ne_nil _ (significant_ne_nil h)] at hhead

theorem getLast?_significant_ne (d : Decimal) : d.significant.getLast? ≠ some '0' := by
  rw [significant, List.getLast?_reverse]
  intro hzero
  have hnot := List.head?_dropWhile_not (· == '0') (Nat.toDigits 10 d.coefficient).reverse
  rw [hzero] at hnot
  cases hnot

end Decimal

/-! ## Digits around a point -/

namespace Layout

/-- The digits in front of the point and behind it, when the first digit has a given order of
magnitude. -/
def places (digits : List Char) : Int → List Char × List Char
  | .ofNat n =>
      (digits.take (n + 1) ++ List.replicate (n + 1 - digits.length) '0', digits.drop (n + 1))
  | .negSucc n => (['0'], List.replicate n '0' ++ digits)

theorem plain_eq (l : Layout) {digits : List Char} (hne : digits ≠ []) (order : Int) :
    l.plain digits order = (places digits order).1 ++ l.fraction (places digits order).2 := by
  cases order with
  | ofNat n => rfl
  | negSucc n =>
      have hsome : (List.replicate n '0' ++ digits).isEmpty = false := by simp [hne]
      unfold plain places fraction
      dsimp only
      rw [hsome]
      rfl

variable {digits : List Char} {order : Int}

theorem isDigits_places (hdigits : ∀ char ∈ digits, char.isDigit) :
    IsDigits (places digits order).1 := by
  cases order with
  | ofNat n =>
      refine .append (fun char hchar => hdigits char (List.mem_of_mem_take hchar))
        isDigit_of_mem_replicate (List.ne_nil_of_length_pos ?_)
      rw [List.length_append, List.length_take, List.length_replicate]
      omega
  | negSucc n => exact isDigits_replicate Nat.one_ne_zero

theorem isDigit_of_mem_places (hdigits : ∀ char ∈ digits, char.isDigit) :
    ∀ char ∈ (places digits order).2, char.isDigit := by
  cases order with
  | ofNat n => exact fun char hchar => hdigits char (List.mem_of_mem_drop hchar)
  | negSucc n =>
      intro char hchar
      exact (List.mem_append.1 hchar).elim (isDigit_of_mem_replicate char) (hdigits char)

/-- Digits around the point stand for what the digits say, their order telling where they start. -/
theorem pointed_places (digits : List Char) (order : Int) :
    pointed (places digits order).1 (places digits order).2 =
      Nat.ofDigitChars 10 digits 0 * 10 ^ (order + 1 - digits.length) := by
  cases order with
  | ofNat n =>
      rcases Nat.lt_or_ge (n + 1) digits.length with hlt | hge
      · -- Some of the digits stand behind the point.
        have hnone : n + 1 - digits.length = 0 := Nat.sub_eq_zero_of_le hlt.le
        have hexponent : Int.ofNat n + 1 - digits.length = -(digits.length - (n + 1) : Nat) := by
          rw [Nat.cast_sub hlt.le, Int.ofNat_eq_natCast]
          push_cast
          ring
        simp only [places, hnone, List.replicate_zero, List.append_nil]
        rw [pointed, List.take_append_drop, List.length_drop, hexponent, zpow_neg, zpow_natCast,
          div_eq_mul_inv]
      · -- Zeros fill the places up to the point.
        have hexponent : Int.ofNat n + 1 - digits.length = (n + 1 - digits.length : Nat) := by
          rw [Nat.cast_sub hge]
          rfl
        simp only [places, List.take_of_length_le hge, List.drop_of_length_le hge]
        rw [pointed_nil, Nat.ofDigitChars_append, Nat.ofDigitChars_replicate_zero, hexponent,
          zpow_natCast, Nat.cast_mul, Nat.cast_pow, Nat.cast_ofNat, mul_comm]
  | negSucc n =>
      have hexponent : Int.negSucc n + 1 - digits.length = -(n + digits.length : Nat) := by
        rw [Int.negSucc_eq]
        push_cast
        ring
      have hzero : Nat.ofDigitChars 10 ['0'] 0 = 0 := rfl
      rw [places, pointed, Nat.ofDigitChars_append, Nat.ofDigitChars_append, hzero,
        Nat.ofDigitChars_replicate_zero, Nat.mul_zero, hexponent, zpow_neg, zpow_natCast,
        List.length_append, List.length_replicate, div_eq_mul_inv]

end Layout

/-! ## Numerals -/

/-- A decimal as it is written: its sign, the digits in front of the point and behind it, and an
exponent if there is one. -/
structure Numeral where
  negative : Bool
  whole : List Char
  fraction : List Char
  exponent : Option Int

namespace Numeral

/-- What is written for an exponent; one that is not negative may have a plus sign. -/
def exponentText (plus : Bool) : Option Int → List Char
  | none => []
  | some exponent =>
      'e' :: ((if exponent < 0 then ['-'] else if plus then ['+'] else []) ++
        Nat.toDigits 10 exponent.natAbs)

/-- The text of a numeral.  There is a point only if there are digits behind it. -/
def text (plus : Bool) (n : Numeral) : List Char :=
  (if n.negative then ['-'] else []) ++ n.whole ++
    (if n.fraction.isEmpty then [] else '.' :: n.fraction) ++ exponentText plus n.exponent

/-- The absolute value of the number that a numeral stands for. -/
def magnitude (n : Numeral) : ℚ :=
  pointed n.whole n.fraction * 10 ^ n.exponent.getD 0

/-- The digits of a numeral are digits, and there is one in front of the point. -/
structure Formed (n : Numeral) : Prop where
  whole : IsDigits n.whole
  fraction : ∀ char ∈ n.fraction, char.isDigit

/-- A numeral has no idle zeros: none in front of its first digit, none behind the last one after
the point; and with an exponent it has one digit in front of the point, which is not zero. -/
structure Neat (n : Numeral) : Prop extends n.Formed where
  leading : n.whole = ['0'] ∨ n.whole.head? ≠ some '0'
  trailing : n.fraction.getLast? ≠ some '0'
  single : n.exponent.isSome → n.whole.length = 1 ∧ n.whole ≠ ['0']

end Numeral

namespace Layout

/-- The digits behind the point, with the single zero that the layout may ask for. -/
def filled (l : Layout) (fraction : List Char) : List Char :=
  if fraction.isEmpty && l.keepFraction then ['0'] else fraction

/-- The digits of a magnitude and the order of magnitude of the first one. -/
def digits (l : Layout) (x : Magnitude) : List Char × Int :=
  if x.mantissa = 0 then (['0'], 0)
  else ((x.shortest l.tie).significant, (x.shortest l.tie).order)

/-- The numeral with given digits, of which the first has a given order of magnitude. -/
def ofDigits (l : Layout) (negative : Bool) (digits : List Char) (order : Int) : Numeral :=
  if l.positional order then
    { negative
      whole := (places digits order).1
      fraction := l.filled (places digits order).2
      exponent := none }
  else
    { negative
      whole := digits.take 1
      fraction := digits.drop 1
      exponent := some order }

/-- The numeral that is written for a finite number. -/
def numeral (l : Layout) (x : Float) : Numeral :=
  let magnitude := Magnitude.ofFloat x
  l.ofDigits (signBit x && (magnitude.mantissa != 0 || l.signedZero))
    (l.digits magnitude).1 (l.digits magnitude).2

variable (l : Layout)

/-! ## The digits of a magnitude -/

theorem mantissa_ne_zero_iff {bits : Nat} : (Magnitude.ofBits bits).mantissa ≠ 0 ↔ 0 < bits := by
  constructor
  · intro hne
    refine Nat.pos_of_ne_zero ?_
    rintro rfl
    exact hne rfl
  · exact fun hpos => (Magnitude.mantissa_ofBits_pos hpos).ne'

/-- Digits of a magnitude: a single zero, or digits without a zero at their ends. -/
theorem digits_cases (bits : Nat) :
    bits = 0 ∧ l.digits (.ofBits bits) = (['0'], 0) ∨
    0 < bits ∧ l.digits (.ofBits bits) =
      (((Magnitude.ofBits bits).shortest l.tie).significant,
        ((Magnitude.ofBits bits).shortest l.tie).order) ∧
      ((Magnitude.ofBits bits).shortest l.tie).coefficient ≠ 0 := by
  rcases Nat.eq_zero_or_pos bits with rfl | hpos
  · exact .inl ⟨rfl, rfl⟩
  · right
    refine ⟨hpos, ?_, Magnitude.coefficient_shortest_ne_zero hpos l.tie⟩
    rw [digits, if_neg (mantissa_ne_zero_iff.2 hpos)]

theorem digits_ne_nil (bits : Nat) : (l.digits (.ofBits bits)).1 ≠ [] := by
  obtain ⟨-, h⟩ | ⟨-, h, hne⟩ := l.digits_cases bits
  · rw [h]
    exact List.cons_ne_nil _ _
  · rw [h]
    exact Decimal.significant_ne_nil hne

theorem isDigit_of_mem_digits (bits : Nat) :
    ∀ char ∈ (l.digits (.ofBits bits)).1, char.isDigit := by
  obtain ⟨-, h⟩ | ⟨-, h, -⟩ := l.digits_cases bits
  · rw [h]
    simp
  · rw [h]
    exact Decimal.isDigit_of_mem_significant

/-- The digits of a magnitude stand for a number that rounds to it. -/
theorem rounds_digits (bits : Nat) :
    (Magnitude.ofBits bits).Rounds (Nat.ofDigitChars 10 (l.digits (.ofBits bits)).1 0 *
      10 ^ ((l.digits (.ofBits bits)).2 + 1 - (l.digits (.ofBits bits)).1.length)) := by
  obtain ⟨rfl, h⟩ | ⟨hpos, h, -⟩ := l.digits_cases bits
  · have hzero : Nat.ofDigitChars 10 ['0'] 0 = 0 := rfl
    rw [h, hzero, Nat.cast_zero, zero_mul]
    exact Magnitude.rounds_zero
  · rw [h, ← Decimal.value_eq]
    exact Magnitude.rounds_shortest (Magnitude.mantissa_ofBits_pos hpos) l.tie

/-! ## What is written -/

theorem fraction_eq (digits : List Char) :
    l.fraction digits = if (l.filled digits).isEmpty then [] else '.' :: l.filled digits := by
  unfold fraction filled
  cases l.keepFraction <;> cases digits <;> rfl

theorem pointed_filled (whole digits : List Char) :
    pointed whole (l.filled digits) = pointed whole digits := by
  unfold filled
  split
  · next hempty =>
      obtain rfl := List.isEmpty_iff.1 (Bool.and_eq_true_iff.1 hempty).1
      rw [pointed_zero, pointed_nil]
  · rfl

theorem isDigit_of_mem_filled {digits : List Char} (hdigits : ∀ char ∈ digits, char.isDigit) :
    ∀ char ∈ l.filled digits, char.isDigit := by
  unfold filled
  split
  · simp
  · exact hdigits

/-- The text of the digits of a numeral. -/
theorem magnitude_eq (hexact : l.wholeExact = false) (hzero : l.positional 0) (bits : Nat) :
    l.magnitude (.ofBits bits) =
      if l.positional (l.digits (.ofBits bits)).2 then
        l.plain (l.digits (.ofBits bits)).1 (l.digits (.ofBits bits)).2
      else
        l.scientific (l.digits (.ofBits bits)).1 (l.digits (.ofBits bits)).2 := by
  unfold magnitude digits
  rw [hexact]
  split
  · rfl
  · rfl

theorem text_ofDigits (negative : Bool) {digits : List Char} (hne : digits ≠ []) (order : Int) :
    (l.ofDigits negative digits order).text l.exponentPlus =
      (if negative then ['-'] else []) ++
        if l.positional order then l.plain digits order else l.scientific digits order := by
  unfold ofDigits
  split
  · rw [l.plain_eq hne, fraction_eq]
    simp only [Numeral.text, Numeral.exponentText, List.append_nil, List.append_assoc]
  · simp only [Numeral.text, Numeral.exponentText, scientific, List.append_assoc]

/-- What is written for a finite number is its numeral. -/
theorem toList_write {x : Float} (hexact : l.wholeExact = false) (hzero : l.positional 0)
    (hnumber : x.isNaN = false) (hfinite : x.isInf = false) :
    (l.write x).toList = (l.numeral x).text l.exponentPlus := by
  unfold write numeral
  rw [hnumber, hfinite, if_neg Bool.false_ne_true, if_neg Bool.false_ne_true]
  dsimp only
  rw [Magnitude.ofFloat_eq_ofBits, l.magnitude_eq hexact hzero]
  rw [l.text_ofDigits _ (l.digits_ne_nil _)]
  split
  · exact String.toList_ofList
  · exact String.toList_ofList

/-- A numeral stands for what its digits say. -/
theorem magnitude_ofDigits (negative : Bool) {digits : List Char} (hne : digits ≠ [])
    (order : Int) :
    (l.ofDigits negative digits order).magnitude =
      Nat.ofDigitChars 10 digits 0 * 10 ^ (order + 1 - digits.length) := by
  unfold ofDigits
  split
  · show pointed (places digits order).1 (l.filled (places digits order).2) * 10 ^ (0 : ℤ) = _
    rw [zpow_zero, mul_one, pointed_filled, pointed_places]
  · have hlength := List.length_pos_of_ne_nil hne
    have hexponent : order + 1 - digits.length = order - (digits.length - 1 : Nat) := by omega
    show pointed (digits.take 1) (digits.drop 1) * 10 ^ order = _
    rw [pointed, List.take_append_drop, List.length_drop, hexponent, zpow_sub₀ (by norm_num),
      zpow_natCast]
    ring

/-- The numeral of a finite number stands for a number that rounds to it. -/
theorem rounds_numeral (x : Float) : (Magnitude.ofFloat x).Rounds (l.numeral x).magnitude := by
  unfold numeral
  dsimp only
  rw [Magnitude.ofFloat_eq_ofBits, l.magnitude_ofDigits _ (l.digits_ne_nil _)]
  exact l.rounds_digits _

theorem formed_ofDigits (negative : Bool) {digits : List Char} (hne : digits ≠ [])
    (hdigits : ∀ char ∈ digits, char.isDigit) (order : Int) :
    (l.ofDigits negative digits order).Formed := by
  unfold ofDigits
  split
  · exact ⟨isDigits_places hdigits, l.isDigit_of_mem_filled (isDigit_of_mem_places hdigits)⟩
  · have hfirst : digits.take 1 ≠ [] := by simpa using hne
    exact ⟨⟨hfirst, fun char hchar => hdigits char (List.mem_of_mem_take hchar)⟩,
      fun char hchar => hdigits char (List.mem_of_mem_drop hchar)⟩

theorem formed_numeral (x : Float) : (l.numeral x).Formed := by
  unfold numeral
  dsimp only
  rw [Magnitude.ofFloat_eq_ofBits]
  exact l.formed_ofDigits _ (l.digits_ne_nil _) (l.isDigit_of_mem_digits _) _

/-! ## Idle zeros -/

theorem getLast?_drop_ne {digits : List Char} (hlast : digits.getLast? ≠ some '0') (n : Nat) :
    (digits.drop n).getLast? ≠ some '0' := by
  rw [List.getLast?_drop]
  split
  · exact (Option.some_ne_none _).symm
  · exact hlast

theorem head?_places {digits : List Char} (hne : digits ≠ [])
    (hfirst : digits.head? ≠ some '0') (order : Int) :
    (places digits order).1 = ['0'] ∨ (places digits order).1.head? ≠ some '0' := by
  cases order with
  | ofNat n =>
      right
      obtain ⟨first, rest, rfl⟩ := List.exists_cons_of_ne_nil hne
      exact hfirst
  | negSucc n => exact .inl rfl

theorem getLast?_places {digits : List Char} (hne : digits ≠ [])
    (hlast : digits.getLast? ≠ some '0') (order : Int) :
    (places digits order).2.getLast? ≠ some '0' := by
  cases order with
  | ofNat n => exact getLast?_drop_ne hlast _
  | negSucc n =>
      show (List.replicate n '0' ++ digits).getLast? ≠ some '0'
      rwa [List.getLast?_append_of_ne_nil _ hne]

/-- Digits without a zero at their ends give a numeral without idle zeros. -/
theorem neat_ofDigits (hkeep : l.keepFraction = false) (negative : Bool) {digits : List Char}
    (hne : digits ≠ []) (hdigits : ∀ char ∈ digits, char.isDigit)
    (hfirst : digits.head? ≠ some '0') (hlast : digits.getLast? ≠ some '0') (order : Int) :
    (l.ofDigits negative digits order).Neat := by
  have hfilled (fraction : List Char) : l.filled fraction = fraction := by
    rw [filled, hkeep, Bool.and_false, if_neg Bool.false_ne_true]
  have hformed := l.formed_ofDigits negative hne hdigits order
  unfold ofDigits at hformed ⊢
  split
  · next hpositional =>
      rw [if_pos hpositional] at hformed
      refine ⟨hformed, head?_places hne hfirst order, ?_, fun hsome => nomatch hsome⟩
      show (l.filled (places digits order).2).getLast? ≠ some '0'
      rw [hfilled]
      exact getLast?_places hne hlast order
  · next hscientific =>
      rw [if_neg hscientific] at hformed
      obtain ⟨first, rest, rfl⟩ := List.exists_cons_of_ne_nil hne
      refine ⟨hformed, .inr hfirst, getLast?_drop_ne hlast 1, fun _ => ⟨rfl, fun hzero => ?_⟩⟩
      exact hfirst (congrArg List.head? hzero)

theorem neat_numeral (hkeep : l.keepFraction = false) (hzero : l.positional 0) (x : Float) :
    (l.numeral x).Neat := by
  unfold numeral
  dsimp only
  rw [Magnitude.ofFloat_eq_ofBits]
  generalize x.toBits.toNat % 2 ^ 63 = bits
  have hdigits := l.isDigit_of_mem_digits bits
  obtain ⟨-, h⟩ | ⟨-, h, hne⟩ := l.digits_cases bits
  · rw [h, ofDigits, if_pos hzero]
    have hfraction : l.filled [] = [] := by
      rw [filled, hkeep]
      rfl
    refine ⟨⟨isDigits_replicate Nat.one_ne_zero, ?_⟩, .inl rfl, ?_, fun hsome => nomatch hsome⟩
    · show ∀ char ∈ l.filled [], char.isDigit
      simp [hfraction]
    · show (l.filled []).getLast? ≠ some '0'
      simp [hfraction]
  · rw [h] at hdigits ⊢
    exact l.neat_ofDigits hkeep _ (Decimal.significant_ne_nil hne) hdigits
      (Decimal.head?_significant_ne hne) (Decimal.getLast?_significant_ne _) _

end Layout

end LoxLang
