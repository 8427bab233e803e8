import Mathlib.Data.Rat.Star
import Mathlib.Tactic.Linarith
import Mathlib.Tactic.NormNum
import Mathlib.Tactic.Ring
import LoxLang.Decimal.Shortest

/-!
# Numbers that round to a magnitude

The finite binary64 numbers without their signs, in order, are numbered by their bits.  Half way
between two neighbours there is the end of the numbers that round to the first one and the start of
those that round to the second, and only one of the two has it, since every other mantissa is even.
So no number rounds to two magnitudes (`Magnitude.Rounds.eq`).
-/

namespace LoxLang

/-- A number is told by its bits. -/
theorem float_eq_of_toNat_toBits {x y : Float} (h : x.toBits.toNat = y.toBits.toNat) : x = y := by
  obtain ⟨⟨bits, valid⟩⟩ := x
  obtain ⟨⟨bits', valid'⟩⟩ := y
  obtain rfl : bits = bits' := UInt64.toNat_inj.1 h
  rfl

namespace Magnitude

/-- The number that a magnitude is. -/
def value (x : Magnitude) : ℚ :=
  x.mantissa * 2 ^ x.exponent

/-- Half way to the neighbour below. -/
def low (x : Magnitude) : ℚ :=
  (x.mantissa - if x.tight then 1 / 4 else 1 / 2) * 2 ^ x.exponent

/-- Half way to the neighbour above. -/
def high (x : Magnitude) : ℚ :=
  (x.mantissa + 1 / 2) * 2 ^ x.exponent

/-- A number rounds to a magnitude.  Half way between two of them it is the even one. -/
def Rounds (x : Magnitude) (number : ℚ) : Prop :=
  if x.mantissa % 2 = 0 then x.low ≤ number ∧ number ≤ x.high
  else x.low < number ∧ number < x.high

theorem pos_two_zpow (exponent : ℤ) : (0 : ℚ) < 2 ^ exponent :=
  zpow_pos (by norm_num) exponent

theorem low_lt_value (x : Magnitude) : x.low < x.value := by
  refine mul_lt_mul_of_pos_right ?_ (pos_two_zpow x.exponent)
  split
  · linarith
  · linarith

theorem value_lt_high (x : Magnitude) : x.value < x.high := by
  refine mul_lt_mul_of_pos_right ?_ (pos_two_zpow x.exponent)
  linarith

/-- Strictly between the two ends it does not matter which of them belong to the magnitude. -/
theorem rounds_of_lt {x : Magnitude} {number : ℚ} (hlow : x.low < number)
    (hhigh : number < x.high) :
    x.Rounds number := by
  unfold Rounds
  split
  · exact ⟨hlow.le, hhigh.le⟩
  · exact ⟨hlow, hhigh⟩

theorem rounds_value (x : Magnitude) : x.Rounds x.value :=
  rounds_of_lt x.low_lt_value x.value_lt_high

theorem Rounds.low_le {x : Magnitude} {number : ℚ} (h : x.Rounds number) : x.low ≤ number := by
  unfold Rounds at h
  split at h
  · exact h.1
  · exact h.1.le

theorem Rounds.le_high {x : Magnitude} {number : ℚ} (h : x.Rounds number) : number ≤ x.high := by
  unfold Rounds at h
  split at h
  · exact h.2
  · exact h.2.le

/-! ## The order of the magnitudes -/

/-- The magnitude of a number whose bits without the sign are given. -/
def ofBits (bits : Nat) : Magnitude :=
  if bits / 2 ^ 52 = 0 then
    { mantissa := bits % 2 ^ 52, exponent := -1074, tight := false }
  else
    { mantissa := 2 ^ 52 + bits % 2 ^ 52
      exponent := (bits / 2 ^ 52 : Nat) - 1075
      tight := bits % 2 ^ 52 == 0 && bits / 2 ^ 52 != 1 }

theorem ofFloat_eq_ofBits (x : Float) : ofFloat x = ofBits (x.toBits.toNat % 2 ^ 63) := by
  have hfraction : x.toBits.toNat % 2 ^ 63 % 2 ^ 52 = x.toBits.toNat % 2 ^ 52 := by omega
  have hbiased : x.toBits.toNat % 2 ^ 63 / 2 ^ 52 = x.toBits.toNat / 2 ^ 52 % 2 ^ 11 := by omega
  rw [ofBits, hfraction, hbiased]
  rfl

theorem mantissa_ofBits_lt (bits : Nat) : (ofBits bits).mantissa < 2 ^ 53 := by
  unfold ofBits
  split
  · show bits % 2 ^ 52 < 2 ^ 53
    omega
  · show 2 ^ 52 + bits % 2 ^ 52 < 2 ^ 53
    omega

/-- Where the neighbour below is nearer, the mantissa is a power of two. -/
theorem mantissa_of_tight {bits : Nat} (h : (ofBits bits).tight) :
    (ofBits bits).mantissa = 2 ^ 52 := by
  unfold ofBits at h ⊢
  split at h
  · cases h
  · next hbiased =>
      rw [if_neg hbiased]
      have hfraction : bits % 2 ^ 52 = 0 := eq_of_beq (Bool.and_eq_true_iff.1 h).1
      exact congrArg (2 ^ 52 + ·) hfraction

theorem mantissa_ofBits_mod_two (bits : Nat) : (ofBits bits).mantissa % 2 = bits % 2 := by
  unfold ofBits
  split
  · show bits % 2 ^ 52 % 2 = bits % 2
    omega
  · show (2 ^ 52 + bits % 2 ^ 52) % 2 = bits % 2
    omega

/-- Half way between two neighbours. -/
theorem low_ofBits_succ (bits : Nat) : (ofBits (bits + 1)).low = (ofBits bits).high := by
  have hdivision : bits = 2 ^ 52 * (bits / 2 ^ 52) + bits % 2 ^ 52 := (Nat.div_add_mod _ _).symm
  generalize hbiased : bits / 2 ^ 52 = biased at hdivision
  generalize hfraction : bits % 2 ^ 52 = fraction at hdivision
  have hlt : fraction < 2 ^ 52 := by omega
  by_cases hlast : fraction + 1 = 2 ^ 52
  · -- The next mantissa is the smallest one, and the exponent may be larger.
    have hbiased' : (bits + 1) / 2 ^ 52 = biased + 1 := by omega
    have hfraction' : (bits + 1) % 2 ^ 52 = 0 := by omega
    have hreal : (fraction : ℚ) = 2 ^ 52 - 1 := by
      rw [eq_sub_iff_add_eq]
      exact_mod_cast hlast
    simp only [low, high, ofBits, hbiased, hbiased', hfraction, hfraction']
    rw [if_neg (Nat.succ_ne_zero biased)]
    rcases Nat.eq_zero_or_pos biased with rfl | hpos
    · have hexponent : ((0 + 1 : Nat) : ℤ) - 1075 = -1074 := rfl
      have htight : (0 == 0 && 0 + 1 != 1) = false := rfl
      rw [if_pos rfl, hexponent, htight, if_neg Bool.false_ne_true]
      generalize (2 : ℚ) ^ (-1074 : ℤ) = unit
      push_cast
      rw [hreal]
      ring
    · have htight : (0 == 0 && biased + 1 != 1) = true := by simp [hpos.ne']
      have hexponent : ((biased + 1 : Nat) : ℤ) - 1075 = (biased : ℤ) - 1075 + 1 := by
        push_cast
        ring
      rw [if_neg hpos.ne', htight, if_pos rfl, hexponent,
        zpow_add_one₀ (by norm_num : (2 : ℚ) ≠ 0)]
      generalize (2 : ℚ) ^ ((biased : ℤ) - 1075) = unit
      push_cast
      rw [hreal]
      ring
  · have hbiased' : (bits + 1) / 2 ^ 52 = biased := by omega
    have hfraction' : (bits + 1) % 2 ^ 52 = fraction + 1 := by omega
    have htight : (fraction + 1 == 0 && biased != 1) = false := rfl
    simp only [low, high, ofBits, hbiased, hbiased', hfraction, hfraction', htight]
    split
    · generalize (2 : ℚ) ^ (-1074 : ℤ) = unit
      rw [if_neg Bool.false_ne_true]
      push_cast
      ring
    · generalize (2 : ℚ) ^ ((biased : ℤ) - 1075) = unit
      rw [if_neg Bool.false_ne_true]
      push_cast
      ring

theorem low_lt_high (x : Magnitude) : x.low < x.high :=
  x.low_lt_value.trans x.value_lt_high

theorem strictMono_high_ofBits : StrictMono fun bits => (ofBits bits).high := by
  refine strictMono_nat_of_lt_succ fun bits => ?_
  show (ofBits bits).high < (ofBits (bits + 1)).high
  rw [← low_ofBits_succ]
  exact low_lt_high _

/-- A number that rounds to one magnitude does not round to a greater one. -/
theorem Rounds.not_of_lt {bits more : Nat} (hlt : bits < more) {number : ℚ}
    (h : (ofBits bits).Rounds number) : ¬(ofBits more).Rounds number := by
  intro h'
  obtain ⟨before, rfl⟩ : ∃ before, more = before + 1 := ⟨more - 1, by omega⟩
  have hmono := strictMono_high_ofBits.monotone (Nat.lt_succ_iff.1 hlt)
  have hlow := h'.low_le
  rw [low_ofBits_succ] at hlow
  have hhigh : (ofBits bits).high = (ofBits before).high :=
    le_antisymm hmono (hlow.trans h.le_high)
  obtain rfl : bits = before := strictMono_high_ofBits.injective hhigh
  -- The number lies half way between the two, of which only one is even.
  have heq : number = (ofBits bits).high := le_antisymm h.le_high hlow
  unfold Rounds at h h'
  rw [mantissa_ofBits_mod_two] at h h'
  split at h
  · next heven =>
      rw [if_neg (by omega), low_ofBits_succ] at h'
      exact absurd heq h'.1.ne'
  · exact absurd heq h.2.ne

/-- No number rounds to two magnitudes. -/
theorem Rounds.eq {bits other : Nat} {number : ℚ} (h : (ofBits bits).Rounds number)
    (h' : (ofBits other).Rounds number) : bits = other := by
  rcases Nat.lt_trichotomy bits other with hlt | heq | hgt
  · exact absurd h' (h.not_of_lt hlt)
  · exact heq
  · exact absurd h (h'.not_of_lt hgt)

/-- Greater numbers round to greater magnitudes. -/
theorem Rounds.mono {bits other : Nat} {number number' : ℚ}
    (h : (ofBits bits).Rounds number) (h' : (ofBits other).Rounds number')
    (hle : number ≤ number') : bits ≤ other := by
  by_contra hlt
  obtain ⟨before, rfl⟩ : ∃ before, bits = before + 1 := ⟨bits - 1, by omega⟩
  have hmono := strictMono_high_ofBits.monotone (by omega : other ≤ before)
  have hlow := h.low_le
  rw [low_ofBits_succ] at hlow
  have heq : number = number' := le_antisymm hle ((h'.le_high.trans hmono).trans hlow)
  have hsame := (heq ▸ h).eq h'
  omega

theorem mantissa_ofBits_pos {bits : Nat} (hpos : 0 < bits) : 0 < (ofBits bits).mantissa := by
  unfold ofBits
  split
  · show 0 < bits % 2 ^ 52
    omega
  · show 0 < 2 ^ 52 + bits % 2 ^ 52
    omega

theorem rounds_zero : (ofBits 0).Rounds 0 := by
  have hvalue : (ofBits 0).value = 0 := by
    rw [value]
    exact mul_eq_zero_of_left Nat.cast_zero _
  exact hvalue ▸ rounds_value _

end Magnitude

end LoxLang
