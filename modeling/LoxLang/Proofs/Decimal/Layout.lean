import LoxLang.Proofs.Decimal.Numeral
import LoxLang.Tree.Outline

/-!
# Numbers are told by their texts

The digits of a finite number in an outline denote a number that rounds to it
(`Expr.exists_denotes`), and no number rounds to two magnitudes.  So the text of a finite number
determines it (`Expr.eq_of_write_append`).
-/

namespace LoxLang

/-! ## Digits around a point -/

/-- A text with digits around a point denotes a number. -/
inductive Denotes : List Char → ℚ → Prop
  | mk {whole fraction : List Char} :
      IsDigits whole → IsDigits fraction →
        Denotes (whole ++ '.' :: fraction) (pointed whole fraction)

/-- Characters of one sort with another one behind them are found again. -/
theorem eq_of_append_of_all (sort : Char → Bool) {first second rest rest' : List Char}
    (hfirst : ∀ char ∈ first, sort char) (hsecond : ∀ char ∈ second, sort char)
    (hrest : ∀ char ∈ rest.head?, sort char = false)
    (hrest' : ∀ char ∈ rest'.head?, sort char = false) (h : first ++ rest = second ++ rest') :
    first = second ∧ rest = rest' := by
  have htake {front back : List Char} (hfront : ∀ char ∈ front, sort char)
      (hback : ∀ char ∈ back.head?, sort char = false) :
      (front ++ back).takeWhile sort = front := by
    rw [List.takeWhile_append_of_pos hfront]
    cases back with
    | nil => simp
    | cons char _ => simp [hback char rfl]
  have heq : first = second := by
    rw [← htake hfirst hrest, h, htake hsecond hrest']
  subst heq
  exact ⟨rfl, List.append_cancel_left h⟩

namespace Denotes

variable {text text' rest rest' : List Char} {number number' : ℚ}

/-- A text that denotes a number starts with a digit. -/
theorem exists_digit (h : Denotes text number) :
    ∃ first more, text = first :: more ∧ first.isDigit := by
  obtain @⟨whole, fraction, hwhole, -⟩ := h
  obtain ⟨first, more, rfl⟩ := List.exists_cons_of_ne_nil hwhole.1
  exact ⟨first, _, rfl, hwhole.2 first List.mem_cons_self⟩

/-- A text denotes one number only, and where it ends is seen from what follows. -/
theorem eq_of_append (h : Denotes text number) (h' : Denotes text' number')
    (hrest : ∀ char ∈ rest.head?, char.isDigit = false)
    (hrest' : ∀ char ∈ rest'.head?, char.isDigit = false) (heq : text ++ rest = text' ++ rest') :
    number = number' ∧ rest = rest' := by
  obtain @⟨whole, fraction, hwhole, hfraction⟩ := h
  obtain @⟨whole', fraction', hwhole', hfraction'⟩ := h'
  have hpoint {behind : List Char} : ∀ char ∈ ('.' :: behind).head?, char.isDigit = false := by
    simp [Char.isDigit]
  rw [List.append_assoc, List.append_assoc] at heq
  obtain ⟨rfl, hbehind⟩ := eq_of_append_of_all _ hwhole.2 hwhole'.2 hpoint hpoint heq
  obtain ⟨rfl, rfl⟩ := eq_of_append_of_all _ hfraction.2 hfraction'.2 hrest hrest'
    (List.cons.inj hbehind).2
  exact ⟨rfl, rfl⟩

end Denotes

/-! ## Numbers in an outline -/

namespace Expr

/-- Digits that are written without an exponent denote what they say, their order telling where they
start. -/
theorem denotes_plain {digits : List Char} (hdigits : ∀ char ∈ digits, char.isDigit)
    (hne : digits ≠ []) (order : Int) :
    Denotes (outlineLayout.plain digits order)
      (Nat.ofDigitChars 10 digits 0 * 10 ^ (order + 1 - digits.length)) := by
  have hwhole : IsDigits (Layout.places digits order).1 := Layout.isDigits_places hdigits
  have hfraction : IsDigits (outlineLayout.filled (Layout.places digits order).2) := by
    refine ⟨?_, outlineLayout.isDigit_of_mem_filled (Layout.isDigit_of_mem_places hdigits)⟩
    unfold Layout.filled
    cases (Layout.places digits order).2 <;> exact List.cons_ne_nil _ _
  have hsome : (outlineLayout.filled (Layout.places digits order).2).isEmpty = false :=
    List.isEmpty_eq_false_iff.2 hfraction.1
  rw [outlineLayout.plain_eq hne, Layout.fraction_eq, hsome, ← Layout.pointed_places,
    ← outlineLayout.pointed_filled]
  exact .mk hwhole hfraction

/-- The shortest decimal is written as what it is. -/
theorem denotes_decimal {d : Decimal} (hne : d.coefficient ≠ 0) :
    Denotes (outlineLayout.plain d.significant d.order) d.value := by
  rw [d.value_eq]
  exact denotes_plain d.isDigit_of_mem_significant (Decimal.significant_ne_nil hne) d.order

/-- A whole number is written as what it is. -/
theorem denotes_whole (n : Nat) :
    Denotes (Nat.toDigits 10 n ++ outlineLayout.fraction []) n := by
  have hdigits : IsDigits (Nat.toDigits 10 n) :=
    ⟨Nat.toDigits_ne_nil, fun _ => Nat.isDigit_of_mem_toDigits (by decide) (by decide)⟩
  have hvalue := pointed_zero (Nat.toDigits 10 n)
  rw [Nat.ofDigitChars_ten_toDigits] at hvalue
  rw [← hvalue]
  exact .mk hdigits (isDigits_replicate Nat.one_ne_zero)

/-- The digits of a magnitude denote a number that rounds to it. -/
theorem exists_denotes (bits : Nat) :
    ∃ number, Denotes (outlineLayout.magnitude (.ofBits bits)) number ∧
      (Magnitude.ofBits bits).Rounds number := by
  unfold Layout.magnitude
  split
  · next hzero =>
      have hvalue : (Magnitude.ofBits bits).value = (0 : Nat) := by
        rw [Magnitude.value, hzero, Nat.cast_zero, zero_mul]
      exact ⟨(0 : Nat), denotes_whole 0, hvalue ▸ Magnitude.rounds_value _⟩
  · next hne =>
      split
      · next n _ hwhole =>
          have hvalue := Magnitude.value_of_whole? hwhole
          exact ⟨n, denotes_whole n, hvalue ▸ Magnitude.rounds_value _⟩
      · have hpos := Layout.mantissa_ne_zero_iff.1 hne
        exact ⟨_, denotes_decimal (Magnitude.coefficient_shortest_ne_zero hpos _),
          Magnitude.rounds_shortest (Nat.pos_of_ne_zero hne) _⟩

/-! ## Signs -/

/-- What stands in front of the digits of a number. -/
def sign (x : Float) : List Char :=
  if Layout.signBit x then ['-'] else []

theorem toList_write {x : Float} (hnumber : x.isNaN = false) (hfinite : x.isInf = false) :
    (outlineLayout.write x).toList =
      sign x ++ outlineLayout.magnitude (.ofBits (x.toBits.toNat % 2 ^ 63)) := by
  have hsigned : (Layout.signBit x && ((Magnitude.ofFloat x).mantissa != 0 ||
      outlineLayout.signedZero)) = Layout.signBit x := by
    have htrue : outlineLayout.signedZero = true := rfl
    rw [htrue, Bool.or_true, Bool.and_true]
  unfold Layout.write
  rw [hnumber, hfinite, if_neg Bool.false_ne_true, if_neg Bool.false_ne_true]
  dsimp only
  rw [hsigned, Magnitude.ofFloat_eq_ofBits, sign]
  split
  · rw [String.toList_ofList]
    rfl
  · rw [String.toList_ofList]
    rfl

/-- A number whose sign and other bits are known is known. -/
theorem float_eq_of_bits {x y : Float} (hsign : Layout.signBit x = Layout.signBit y)
    (hbits : x.toBits.toNat % 2 ^ 63 = y.toBits.toNat % 2 ^ 63) : x = y := by
  have hsign' : (x.toBits.toNat / 2 ^ 63 == 1) = (y.toBits.toNat / 2 ^ 63 == 1) := hsign
  rw [Bool.eq_iff_iff, beq_iff_eq, beq_iff_eq] at hsign'
  have hnat : x.toBits.toNat = y.toBits.toNat := by
    have hlt := x.toBits.toNat_lt
    have hlt' := y.toBits.toNat_lt
    omega
  exact float_eq_of_toNat_toBits hnat

/-- The text of a finite number starts with a digit or with a minus sign. -/
theorem exists_first_write {x : Float} (hnumber : x.isNaN = false) (hfinite : x.isInf = false) :
    ∃ first more, (outlineLayout.write x).toList = first :: more ∧
      (first.isDigit ∨ first = '-') := by
  obtain ⟨number, hdenotes, -⟩ := exists_denotes (x.toBits.toNat % 2 ^ 63)
  obtain ⟨first, more, htext, hdigit⟩ := hdenotes.exists_digit
  rw [toList_write hnumber hfinite, htext, sign]
  split
  · exact ⟨'-', _, rfl, .inr rfl⟩
  · exact ⟨first, _, rfl, .inl hdigit⟩

/-- A finite number is told by its text, and where the text ends is seen from what follows. -/
theorem eq_of_write_append {x y : Float} {rest rest' : List Char}
    (hx : x.isNaN = false ∧ x.isInf = false) (hy : y.isNaN = false ∧ y.isInf = false)
    (hrest : ∀ char ∈ rest.head?, char.isDigit = false)
    (hrest' : ∀ char ∈ rest'.head?, char.isDigit = false)
    (h : (outlineLayout.write x).toList ++ rest = (outlineLayout.write y).toList ++ rest') :
    x = y ∧ rest = rest' := by
  obtain ⟨number, hdenotes, hrounds⟩ := exists_denotes (x.toBits.toNat % 2 ^ 63)
  obtain ⟨number', hdenotes', hrounds'⟩ := exists_denotes (y.toBits.toNat % 2 ^ 63)
  rw [toList_write hx.1 hx.2, toList_write hy.1 hy.2] at h
  generalize outlineLayout.magnitude (.ofBits (x.toBits.toNat % 2 ^ 63)) = text at hdenotes h
  generalize outlineLayout.magnitude (.ofBits (y.toBits.toNat % 2 ^ 63)) = text' at hdenotes' h
  -- A text with a minus sign in front is none without it.
  have hminus {text text' : List Char} {number : ℚ} (hdenotes : Denotes text number) :
      text ++ rest ≠ '-' :: text' ∧ text ++ rest' ≠ '-' :: text' := by
    obtain ⟨first, more, rfl, hdigit⟩ := hdenotes.exists_digit
    have hne : first ≠ '-' := by
      rintro rfl
      cases hdigit
    exact ⟨fun heq => hne (List.cons.inj heq).1, fun heq => hne (List.cons.inj heq).1⟩
  have hboth : Layout.signBit x = Layout.signBit y ∧ text ++ rest = text' ++ rest' := by
    unfold sign at h
    cases hsign : Layout.signBit x with
    | true =>
        cases hsign' : Layout.signBit y with
        | true =>
            rw [hsign, hsign'] at h
            exact ⟨rfl, (List.cons.inj h).2⟩
        | false =>
            rw [hsign, hsign'] at h
            exact absurd h.symm (hminus hdenotes').2
    | false =>
        cases hsign' : Layout.signBit y with
        | true =>
            rw [hsign, hsign'] at h
            exact absurd h (hminus hdenotes).1
        | false =>
            rw [hsign, hsign'] at h
            exact ⟨rfl, h⟩
  obtain ⟨rfl, hrests⟩ := hdenotes.eq_of_append hdenotes' hrest hrest' hboth.2
  exact ⟨float_eq_of_bits hboth.1 (hrounds.eq hrounds'), hrests⟩

end Expr

end LoxLang
