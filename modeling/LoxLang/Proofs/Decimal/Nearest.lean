import Mathlib.Algebra.Order.Field.Basic
import Mathlib.Tactic.FieldSimp
import LoxLang.Proofs.Decimal.Rounding

/-!
# Rounding to the nearest binary64 number

Arithmetic on binary64 numbers goes through a mantissa of any length that is cut to fifty-three
places, with two bits for what was cut off.  The mantissa and the two bits say where the exact
number lies (`Extends`), which is all that is needed to round it to the nearest magnitude
(`Magnitude.rounds_of_near`).  So a quotient is the number nearest to the exact quotient
(`nearest_pack_div`), which is infinity where that is beyond the greatest magnitude.
-/

namespace LoxLang

open Float.Model Float.Model.UnpackedFloat

/-! ## The nearest whole number -/

/-- A whole number is the nearest to a number.  Half way between two of them it is the even one. -/
def Near (m : Nat) (number : ℚ) : Prop :=
  if m % 2 = 0 then (m : ℚ) - 1 / 2 ≤ number ∧ number ≤ m + 1 / 2
  else (m : ℚ) - 1 / 2 < number ∧ number < m + 1 / 2

theorem near_of_lt {m : Nat} {number : ℚ} (hlow : m - 1 / 2 < number)
    (hhigh : number < m + 1 / 2) : Near m number := by
  unfold Near
  split
  · exact ⟨hlow.le, hhigh.le⟩
  · exact ⟨hlow, hhigh⟩

theorem near_of_even {m : Nat} {number : ℚ} (heven : m % 2 = 0) (hlow : m - 1 / 2 ≤ number)
    (hhigh : number ≤ m + 1 / 2) : Near m number := by
  rw [Near, if_pos heven]
  exact ⟨hlow, hhigh⟩

theorem Near.le {m : Nat} {number : ℚ} (h : Near m number) : m - 1 / 2 ≤ number := by
  unfold Near at h
  split at h
  · exact h.1
  · exact h.1.le

theorem Near.ge {m : Nat} {number : ℚ} (h : Near m number) : number ≤ m + 1 / 2 := by
  unfold Near at h
  split at h
  · exact h.2
  · exact h.2.le

/-- A number that is less than a whole one is not nearer to one above it. -/
theorem Near.le_of_lt {m n : Nat} {number : ℚ} (h : Near m number) (hlt : number < n) : m ≤ n := by
  have hreal : (m : ℚ) < n + 1 := by linarith [h.le]
  exact Nat.lt_succ_iff.1 (by exact_mod_cast hreal)

theorem Near.le_of_le {m n : Nat} {number : ℚ} (h : Near m number) (hle : n ≤ number) : n ≤ m := by
  have hreal : (n : ℚ) < m + 1 := by linarith [h.ge]
  exact Nat.lt_succ_iff.1 (by exact_mod_cast hreal)

/-! ## Mantissas with further bits -/

/-- A mantissa and its two further bits stand for a number, in units of the mantissa. -/
def Extends (em : ExtendedMantissa) (number : ℚ) : Prop :=
  match em with
  | ⟨m, false, false⟩ => number = m
  | ⟨m, false, true⟩ => m < number ∧ number < m + 1 / 2
  | ⟨m, true, false⟩ => number = m + 1 / 2
  | ⟨m, true, true⟩ => m + 1 / 2 < number ∧ number < m + 1

namespace Extends

variable {em : ExtendedMantissa} {number : ℚ}

theorem le (h : Extends em number) : em.mantissa ≤ number := by
  obtain ⟨m, roundBit, stickyBit⟩ := em
  cases roundBit <;> cases stickyBit <;> simp only [Extends] at h ⊢ <;> linarith

theorem lt_add_one (h : Extends em number) : number < em.mantissa + 1 := by
  obtain ⟨m, roundBit, stickyBit⟩ := em
  cases roundBit <;> cases stickyBit <;> simp only [Extends] at h ⊢ <;> linarith

/-- The last place becomes the first further bit, and the two further bits are joined. -/
theorem shiftRightOne (h : Extends em number) : Extends em.shiftRightOne (number / 2) := by
  obtain ⟨m, roundBit, stickyBit⟩ := em
  have hm : (m : ℚ) = 2 * (m / 2 : Nat) + (m % 2 : Nat) := by
    exact_mod_cast (Nat.div_add_mod m 2).symm
  rcases Nat.mod_two_eq_zero_or_one m with hbit | hbit
  · rw [hbit] at hm
    have hround : (m % 2 != 0) = false := by rw [hbit]; rfl
    unfold ExtendedMantissa.shiftRightOne
    rw [hround]
    cases roundBit <;> cases stickyBit <;>
      simp only [Extends, Bool.or_true, Bool.or_false] at h ⊢ <;> grind
  · rw [hbit] at hm
    have hround : (m % 2 != 0) = true := by rw [hbit]; rfl
    unfold ExtendedMantissa.shiftRightOne
    rw [hround]
    cases roundBit <;> cases stickyBit <;>
      simp only [Extends, Bool.or_true, Bool.or_false] at h ⊢ <;> grind

theorem shiftRight (h : Extends em number) (places : Nat) :
    Extends (em >>> places) (number / 2 ^ places) := by
  induction places with
  | zero =>
      rw [pow_zero, div_one]
      exact h
  | succ places ih =>
      have hstep := ih.shiftRightOne
      rw [div_div, ← pow_succ] at hstep
      exact hstep

/-- The two further bits tell which of the two whole numbers around a number is the nearer. -/
theorem near_roundedMantissa (h : Extends em number) : Near em.roundedMantissa number := by
  obtain ⟨m, roundBit, stickyBit⟩ := em
  cases roundBit <;> cases stickyBit <;> simp only [Extends] at h
  · show Near m number
    exact near_of_lt (by linarith) (by linarith)
  · show Near m number
    exact near_of_lt (by linarith) (by linarith)
  · -- Half way between two whole numbers it is the even one.
    show Near (m + m % 2) number
    rcases Nat.mod_two_eq_zero_or_one m with hbit | hbit
    · rw [hbit, Nat.add_zero]
      exact near_of_even hbit (by linarith) (by linarith)
    · rw [hbit]
      exact near_of_even (by omega) (by push_cast; linarith) (by push_cast; linarith)
  · show Near (m + 1) number
    exact near_of_lt (by push_cast; linarith) (by push_cast; linarith)

end Extends

/-- The remainder of a division, compared with half of the divisor, gives the two further bits. -/
theorem extends_div (dividend : Nat) {divisor : Nat} (hpos : 0 < divisor) :
    Extends (.ofMantissaAndAccuracy (dividend / divisor)
      (accuracyOfFraction (dividend % divisor) divisor)) (dividend / divisor : ℚ) := by
  have hreal : (0 : ℚ) < divisor := by exact_mod_cast hpos
  have hlt := Nat.mod_lt dividend hpos
  have hquotient : (dividend / divisor : ℚ) =
      (dividend / divisor : Nat) + (dividend % divisor : Nat) / (divisor : ℚ) := by
    have hdivision : (dividend : ℚ) =
        divisor * (dividend / divisor : Nat) + (dividend % divisor : Nat) := by
      exact_mod_cast (Nat.div_add_mod dividend divisor).symm
    rw [hdivision, add_div, mul_div_cancel_left₀ _ hreal.ne']
  rw [hquotient]
  generalize dividend / divisor = quotient
  generalize dividend % divisor = remainder at hlt
  unfold accuracyOfFraction
  split
  · next hzero =>
      show (quotient + remainder / divisor : ℚ) = quotient
      rw [hzero, Nat.cast_zero, zero_div, add_zero]
  · next hne =>
      have hremainder : (0 : ℚ) < remainder := by exact_mod_cast Nat.pos_of_ne_zero hne
      have hlt' : (remainder : ℚ) < divisor := by exact_mod_cast hlt
      have hfraction : 0 < (remainder / divisor : ℚ) := div_pos hremainder hreal
      rcases Nat.lt_trichotomy (2 * remainder) divisor with hhalf | hhalf | hhalf
      · rw [Nat.compare_eq_lt.2 hhalf]
        have hhalf' : (2 * remainder : ℚ) < divisor := by exact_mod_cast hhalf
        have hless : (remainder / divisor : ℚ) < 1 / 2 := by
          rw [div_lt_iff₀ hreal]
          linarith
        exact ⟨by linarith, by linarith⟩
      · rw [Nat.compare_eq_eq.2 hhalf]
        have hhalf' : (2 * remainder : ℚ) = divisor := by exact_mod_cast hhalf
        have hequal : (remainder / divisor : ℚ) = 1 / 2 := by
          rw [div_eq_iff hreal.ne']
          linarith
        exact congrArg ((quotient : ℚ) + ·) hequal
      · rw [Nat.compare_eq_gt.2 hhalf]
        have hhalf' : (divisor : ℚ) < 2 * remainder := by exact_mod_cast hhalf
        have hmore : 1 / 2 < (remainder / divisor : ℚ) := by
          rw [lt_div_iff₀ hreal]
          linarith
        have hless : (remainder / divisor : ℚ) < 1 := (div_lt_one hreal).2 hlt'
        exact ⟨by linarith, by linarith⟩

/-! ## Bits from a mantissa and an exponent -/

namespace Magnitude

/-- The bits of a mantissa of at most fifty-three places, which may lack its first place only where
the exponent is the smallest. -/
theorem ofBits_canonical {m steps : Nat} (hlt : m < 2 ^ 53) (hleast : 2 ^ 52 ≤ m ∨ steps = 0) :
    (ofBits (steps * 2 ^ 52 + m)).mantissa = m ∧
      (ofBits (steps * 2 ^ 52 + m)).exponent = steps - 1074 := by
  rcases Nat.lt_or_ge m (2 ^ 52) with hsmall | hlarge
  · obtain rfl : steps = 0 := hleast.resolve_left (Nat.not_le.2 hsmall)
    have hbiased : (0 * 2 ^ 52 + m) / 2 ^ 52 = 0 := by omega
    have hfraction : (0 * 2 ^ 52 + m) % 2 ^ 52 = m := by omega
    rw [ofBits, if_pos hbiased]
    exact ⟨hfraction, rfl⟩
  · have hbiased : (steps * 2 ^ 52 + m) / 2 ^ 52 = steps + 1 := by omega
    have hfraction : 2 ^ 52 + (steps * 2 ^ 52 + m) % 2 ^ 52 = m := by omega
    rw [ofBits, hbiased, if_neg (Nat.succ_ne_zero steps)]
    refine ⟨hfraction, ?_⟩
    show ((steps + 1 : Nat) : ℤ) - 1075 = steps - 1074
    push_cast
    ring

theorem high_canonical {m steps : Nat} (hlt : m < 2 ^ 53) (hleast : 2 ^ 52 ≤ m ∨ steps = 0) :
    (ofBits (steps * 2 ^ 52 + m)).high = (m + 1 / 2) * 2 ^ (steps - 1074 : ℤ) := by
  obtain ⟨hmantissa, hexponent⟩ := ofBits_canonical hlt hleast
  rw [high, hmantissa, hexponent]

theorem value_canonical {m steps : Nat} (hlt : m < 2 ^ 53) (hleast : 2 ^ 52 ≤ m ∨ steps = 0) :
    (ofBits (steps * 2 ^ 52 + m)).value = m * 2 ^ (steps - 1074 : ℤ) := by
  obtain ⟨hmantissa, hexponent⟩ := ofBits_canonical hlt hleast
  rw [value, hmantissa, hexponent]

/-- Half way to the neighbour below, which is as far away as the one above. -/
theorem low_canonical {m steps : Nat} (hle : m ≤ 2 ^ 53) (hleast : 2 ^ 52 < m ∨ steps = 0) :
    (ofBits (steps * 2 ^ 52 + m)).low = (m - 1 / 2) * 2 ^ (steps - 1074 : ℤ) := by
  cases m with
  | zero =>
      obtain rfl : steps = 0 := hleast.resolve_left (Nat.not_lt_zero _)
      rfl
  | succ n =>
      rw [← Nat.add_assoc, low_ofBits_succ,
        high_canonical hle (hleast.imp_left Nat.le_of_lt_succ)]
      push_cast
      ring

/-- Where all fifty-three places overflow, the next exponent takes over. -/
theorem le_high_canonical {m steps : Nat} (hle : m ≤ 2 ^ 53) (hleast : 2 ^ 52 ≤ m ∨ steps = 0) :
    (m + 1 / 2) * 2 ^ (steps - 1074 : ℤ) ≤ (ofBits (steps * 2 ^ 52 + m)).high := by
  rcases Nat.lt_or_eq_of_le hle with hlt | rfl
  · exact (high_canonical hlt hleast).ge
  · have hbits : steps * 2 ^ 52 + 2 ^ 53 = (steps + 1) * 2 ^ 52 + 2 ^ 52 := by ring
    have hexponent : ((steps + 1 : Nat) : ℤ) - 1074 = (steps - 1074 : ℤ) + 1 := by
      push_cast
      ring
    have hunit := pos_two_zpow (steps - 1074 : ℤ)
    rw [hbits, high_canonical (by norm_num) (.inl (Nat.le_refl _)), hexponent,
      zpow_add_one₀ (by norm_num)]
    push_cast
    linarith

/-- A number with at most fifty-three places before the point rounds to the magnitude with the
nearest mantissa.  The rounded mantissa may have one place more. -/
theorem rounds_of_near {m steps : Nat} {number : ℚ} (hnear : Near m number)
    (hlt : number < 2 ^ 53) (hleast : 2 ^ 52 ≤ number ∨ steps = 0) :
    (ofBits (steps * 2 ^ 52 + m)).Rounds (number * 2 ^ (steps - 1074 : ℤ)) := by
  have hm : m ≤ 2 ^ 53 := hnear.le_of_lt (by exact_mod_cast hlt)
  have hleast' : 2 ^ 52 ≤ m ∨ steps = 0 :=
    hleast.imp_left fun hle => hnear.le_of_le (by exact_mod_cast hle)
  have hunit := pos_two_zpow (steps - 1074 : ℤ)
  have hhigh := le_high_canonical hm hleast'
  -- Below a power of two the neighbour is nearer, but the number is not less than that power.
  have hlow : (ofBits (steps * 2 ^ 52 + m)).low ≤ (m - 1 / 2) * 2 ^ (steps - 1074 : ℤ) ∨
      (ofBits (steps * 2 ^ 52 + m)).low < number * 2 ^ (steps - 1074 : ℤ) := by
    by_cases hpower : 2 ^ 52 < m ∨ steps = 0
    · exact .inl (low_canonical hm hpower).le
    · obtain ⟨hle, hsteps⟩ := not_or.1 hpower
      obtain rfl : m = 2 ^ 52 :=
        Nat.le_antisymm (Nat.not_lt.1 hle) (hleast'.resolve_right hsteps)
      right
      refine (low_lt_value _).trans_le ?_
      rw [value_canonical (by norm_num) (.inl (Nat.le_refl _))]
      push_cast
      exact mul_le_mul_of_nonneg_right (hleast.resolve_right hsteps) hunit.le
  have hparity : (ofBits (steps * 2 ^ 52 + m)).mantissa % 2 = m % 2 := by
    rw [mantissa_ofBits_mod_two]
    omega
  unfold Near at hnear
  unfold Rounds
  rw [hparity]
  split
  · next heven =>
      rw [if_pos heven] at hnear
      have hbelow := mul_le_mul_of_nonneg_right hnear.1 hunit.le
      have habove := mul_le_mul_of_nonneg_right hnear.2 hunit.le
      exact ⟨hlow.elim (·.trans hbelow) (·.le), habove.trans hhigh⟩
  · next hodd =>
      rw [if_neg hodd] at hnear
      have hbelow := mul_lt_mul_of_pos_right hnear.1 hunit
      have habove := mul_lt_mul_of_pos_right hnear.2 hunit
      exact ⟨hlow.elim (·.trans_lt hbelow) id, habove.trans_le hhigh⟩

/-- The bits of the number nearest to a positive number: those of the magnitude that it rounds to,
or those of infinity if it is beyond the greatest magnitude. -/
def Nearest (number : ℚ) (bits : Nat) : Prop :=
  ∃ found, (ofBits found).Rounds number ∧ bits = min found (2047 * 2 ^ 52)

theorem Nearest.eq {number : ℚ} {bits other : Nat} (h : Nearest number bits)
    (h' : Nearest number other) : bits = other := by
  obtain ⟨found, hrounds, rfl⟩ := h
  obtain ⟨found', hrounds', rfl⟩ := h'
  rw [hrounds.eq hrounds']

theorem Rounds.nearest {number : ℚ} {bits : Nat} (h : (ofBits bits).Rounds number)
    (hgreatest : bits < 2047 * 2 ^ 52) : Nearest number bits :=
  ⟨bits, h, (Nat.min_eq_left hgreatest.le).symm⟩

end Magnitude

open Magnitude (Nearest)

/-! ## Rounding and packing -/

theorem toNat_packComponents (biased : BitVec 11) (fraction : BitVec 52) :
    (packComponents .binary64 .positive biased fraction).toNat =
      biased.toNat * 2 ^ 52 + fraction.toNat := by
  have hfraction := fraction.isLt
  unfold packComponents
  rw [BitVec.toNat_append, ← Nat.shiftLeft_add_eq_or_of_lt hfraction, Nat.shiftLeft_eq,
    BitVec.toNat_append]
  simp [Sign.toBitVec]

/-- The bits of a positive number that has its exponent.  From some exponent on it is infinity. -/
theorem toNat_pack {m steps : Nat} (hpos : 0 < m) (hlt : m < 2 ^ 53)
    (hleast : 2 ^ 52 ≤ m ∨ steps = 0) :
    (UnpackedFloat.pack .binary64 (.finite .positive m (steps - 1074) hpos)).toNat =
      min (steps * 2 ^ 52 + m) (2047 * 2 ^ 52) := by
  have hbiased : ((steps - 1074 : ℤ) + (Format.exponentBias .binary64 : Nat) +
      (Format.mantissaBitsWithoutImplicit .binary64 : Nat)).toNat = steps + 1 := by
    show ((steps - 1074 : ℤ) + (1023 : Nat) + (52 : Nat)).toNat = steps + 1
    omega
  have hplaces : Format.mantissaBits .binary64 = 53 := rfl
  unfold UnpackedFloat.pack
  dsimp only
  rw [hbiased, hplaces]
  rcases Nat.lt_or_ge m (2 ^ 52) with hsmall | hlarge
  · obtain rfl : steps = 0 := hleast.resolve_left (Nat.not_le.2 hsmall)
    have hlog : m.log2 + 1 ≠ 53 := by
      have := (Nat.log2_lt hpos.ne').2 hsmall
      omega
    rw [if_neg (by decide), if_neg hlog, toNat_packComponents, BitVec.toNat_ofNat]
    show 0 * 2 ^ 52 + m % 2 ^ 52 = min (0 * 2 ^ 52 + m) (2047 * 2 ^ 52)
    omega
  · have hlog : m.log2 + 1 = 53 := by
      have := (Nat.le_log2 hpos.ne').2 hlarge
      have := (Nat.log2_lt hpos.ne').2 hlt
      omega
    by_cases hinfinite : 2 ^ 11 ≤ steps + 1 + 1
    · have hgreatest : min (steps * 2 ^ 52 + m) (2047 * 2 ^ 52) = 2047 * 2 ^ 52 := by omega
      rw [if_pos hinfinite, hgreatest]
      rfl
    · rw [if_neg hinfinite, if_pos hlog, toNat_packComponents, BitVec.toNat_ofNat,
        BitVec.toNat_ofNat]
      show (steps + 1) % 2 ^ 11 * 2 ^ 52 + m % 2 ^ 52 = min (steps * 2 ^ 52 + m) (2047 * 2 ^ 52)
      omega

/-- The least exponent is the one of the numbers that may lack their first place. -/
theorem targetExponent_eq (total : ℤ) :
    Format.targetExponent .binary64 total = max (total - 53) (-1074) :=
  rfl

theorem shiftToTargetExponent_of_le (accuracy : Accuracy) {m : Nat} {e : ℤ}
    (hle : e ≤ Format.targetExponent .binary64 (totalExponent m e)) :
    shiftToTargetExponent .binary64 m e accuracy =
      (ExtendedMantissa.ofMantissaAndAccuracy m accuracy >>>
          (Format.targetExponent .binary64 (totalExponent m e) - e).toNat,
        Format.targetExponent .binary64 (totalExponent m e)) := by
  unfold shiftToTargetExponent shiftToExponent
  dsimp only
  rw [Int.toNat_of_nonneg (Int.sub_nonneg.2 hle), add_sub_cancel]

/-- The further bits of an exact mantissa are not set. -/
theorem shiftToTargetExponent_exact {m steps : Nat} (hlt : m < 2 ^ 53) :
    shiftToTargetExponent .binary64 m (steps - 1074) .exact =
      (⟨m, false, false⟩, (steps - 1074 : ℤ)) := by
  have hlog : m.log2 < 53 := by
    rcases Nat.eq_zero_or_pos m with rfl | hpos
    · decide
    · exact (Nat.log2_lt hpos.ne').2 hlt
  have hshift : (Format.targetExponent .binary64 (totalExponent m (steps - 1074)) -
      (steps - 1074 : ℤ)).toNat = 0 := by
    rw [targetExponent_eq, totalExponent]
    omega
  unfold shiftToTargetExponent shiftToExponent
  dsimp only
  rw [hshift, Nat.cast_zero, add_zero]
  rfl

theorem shiftToTargetExponent_overflow (steps : Nat) :
    shiftToTargetExponent .binary64 (2 ^ 53) (steps - 1074) .exact =
      (⟨2 ^ 52, false, false⟩, ((steps + 1 : Nat) - 1074 : ℤ)) := by
  have hlog : (2 ^ 53 : Nat).log2 = 53 := Nat.log2_two_pow
  have hshift : (Format.targetExponent .binary64 (totalExponent (2 ^ 53) (steps - 1074)) -
      (steps - 1074 : ℤ)).toNat = 1 := by
    rw [targetExponent_eq, totalExponent, hlog]
    omega
  have hexponent : (steps - 1074 : ℤ) + (1 : Nat) = (steps + 1 : Nat) - 1074 := by
    push_cast
    ring
  unfold shiftToTargetExponent shiftToExponent
  dsimp only
  rw [hshift, hexponent]
  rfl

/-- The number with a sign, a mantissa and an exponent, where the mantissa may be zero. -/
def ofMantissa (sign : Sign) (m : Nat) (e : ℤ) : UnpackedFloat :=
  if h : m = 0 then .zero sign else .finite sign m e (Nat.pos_of_ne_zero h)

theorem ofMantissa_zero (sign : Sign) (e : ℤ) : ofMantissa sign 0 e = .zero sign :=
  dif_pos rfl

theorem ofMantissa_of_pos {m : Nat} (hpos : 0 < m) (sign : Sign) (e : ℤ) :
    ofMantissa sign m e = .finite sign m e hpos :=
  dif_neg hpos.ne'

theorem toNat_pack_ofMantissa {m steps : Nat} (hlt : m < 2 ^ 53)
    (hleast : 2 ^ 52 ≤ m ∨ steps = 0) :
    (UnpackedFloat.pack .binary64 (ofMantissa .positive m (steps - 1074))).toNat =
      min (steps * 2 ^ 52 + m) (2047 * 2 ^ 52) := by
  rcases Nat.eq_zero_or_pos m with rfl | hpos
  · obtain rfl : steps = 0 := hleast.resolve_left (by omega)
    rw [ofMantissa_zero]
    rfl
  · rw [ofMantissa_of_pos hpos]
    exact toNat_pack hpos hlt hleast

/-- The rounded mantissa may have overflowed; its bits say the same nevertheless. -/
theorem toNat_pack_shifted {m steps : Nat} (hle : m ≤ 2 ^ 53)
    (hleast : 2 ^ 52 ≤ m ∨ steps = 0) :
    (UnpackedFloat.pack .binary64
      (ofMantissa .positive (shiftToTargetExponent .binary64 m (steps - 1074) .exact).1.mantissa
        (shiftToTargetExponent .binary64 m (steps - 1074) .exact).2)).toNat =
      min (steps * 2 ^ 52 + m) (2047 * 2 ^ 52) := by
  rcases Nat.lt_or_eq_of_le hle with hlt | rfl
  · rw [shiftToTargetExponent_exact hlt]
    exact toNat_pack_ofMantissa hlt hleast
  · have hbits : steps * 2 ^ 52 + 2 ^ 53 = (steps + 1) * 2 ^ 52 + 2 ^ 52 := by ring
    rw [shiftToTargetExponent_overflow, hbits]
    exact toNat_pack_ofMantissa (by norm_num) (.inl (Nat.le_refl _))

/-- What is rounded is the number nearest to the exact one. -/
theorem nearest_pack_roundWithAccuracy {m : Nat} {e : ℤ} {accuracy : Accuracy} {number : ℚ}
    (hextends : Extends (.ofMantissaAndAccuracy m accuracy) number)
    (hle : e ≤ Format.targetExponent .binary64 (totalExponent m e)) :
    Nearest (number * 2 ^ e) (UnpackedFloat.pack .binary64
      (roundWithAccuracy .binary64 .positive m e accuracy)).toNat := by
  have hfirst := shiftToTargetExponent_of_le accuracy hle
  have htarget := targetExponent_eq (totalExponent m e)
  generalize Format.targetExponent .binary64 (totalExponent m e) = target at hle hfirst htarget
  obtain ⟨steps, rfl⟩ : ∃ steps : Nat, target = steps - 1074 :=
    ⟨(target + 1074).toNat, by omega⟩
  obtain ⟨shift, hshift⟩ := Int.le.dest hle
  rw [totalExponent] at htarget
  have hamount : (steps - 1074 - e : ℤ).toNat = shift := by omega
  rw [hamount] at hfirst
  have hmantissa : (ExtendedMantissa.ofMantissaAndAccuracy m accuracy).mantissa = m := by
    obtain _ | _ | _ | _ := accuracy <;> rfl
  have hshifted := hextends.shiftRight shift
  have hscaled : number / 2 ^ shift * 2 ^ (steps - 1074 : ℤ) = number * 2 ^ e := by
    rw [← hshift, zpow_add₀ (by norm_num), zpow_natCast]
    field_simp
  have hnear := hshifted.near_roundedMantissa
  have hlt : number / 2 ^ shift < 2 ^ 53 := by
    have hplaces : m + 1 ≤ 2 ^ 53 * 2 ^ shift := by
      rw [← Nat.pow_add]
      exact (Nat.succ_le_of_lt Nat.lt_log2_self).trans
        (Nat.pow_le_pow_right Nat.two_pos (by omega))
    have hreal : (m + 1 : ℚ) ≤ 2 ^ 53 * 2 ^ shift := by exact_mod_cast hplaces
    have hnumber := hextends.lt_add_one
    rw [hmantissa] at hnumber
    rw [div_lt_iff₀ (by positivity)]
    exact hnumber.trans_le hreal
  have hleast : 2 ^ 52 ≤ number / 2 ^ shift ∨ steps = 0 := by
    rcases Nat.eq_zero_or_pos steps with hzero | hsteps
    · exact .inr hzero
    · left
      have hlog : m.log2 = 52 + shift := by omega
      have hne : m ≠ 0 := by
        rintro rfl
        rw [Nat.log2_zero] at hlog
        omega
      have hplaces := Nat.log2_self_le hne
      rw [hlog, Nat.pow_add] at hplaces
      have hreal : (2 ^ 52 * 2 ^ shift : ℚ) ≤ m := by exact_mod_cast hplaces
      have hnumber := hextends.le
      rw [hmantissa] at hnumber
      rw [le_div_iff₀ (by positivity)]
      exact hreal.trans hnumber
  have hrounds := Magnitude.rounds_of_near hnear hlt hleast
  rw [hscaled] at hrounds
  refine ⟨_, hrounds, ?_⟩
  have hpack := toNat_pack_shifted (hnear.le_of_lt (by exact_mod_cast hlt))
    (hleast.imp_left fun hle => hnear.le_of_le (by exact_mod_cast hle))
  unfold roundWithAccuracy
  rw [hfirst]
  exact hpack

/-! ## Quotients -/

/-- A quotient is the number nearest to the exact quotient. -/
theorem nearest_pack_div {m₁ m₂ : Nat} (e₁ e₂ : ℤ) (hpos₁ : 0 < m₁) (hpos₂ : 0 < m₂) :
    Nearest (m₁ * 2 ^ e₁ / (m₂ * 2 ^ e₂)) (UnpackedFloat.pack .binary64
      (UnpackedFloat.div .binary64 (.finite .positive m₁ e₁ hpos₁)
        (.finite .positive m₂ e₂ hpos₂))).toNat := by
  have htarget := targetExponent_eq (totalExponent m₁ e₁ - totalExponent m₂ e₂)
  generalize hexponent : min (e₁ - e₂)
    (Format.targetExponent .binary64 (totalExponent m₁ e₁ - totalExponent m₂ e₂)) = exponent
  rw [htarget, totalExponent, totalExponent] at hexponent
  obtain ⟨shift, hshift⟩ := Int.le.dest (hexponent ▸ min_le_left _ _ : exponent ≤ e₁ - e₂)
  have hamount : (e₁ - e₂ - exponent).toNat = shift := by omega
  have hdiv : UnpackedFloat.div .binary64 (.finite .positive m₁ e₁ hpos₁)
      (.finite .positive m₂ e₂ hpos₂) =
        roundWithAccuracy .binary64 .positive (m₁ <<< shift / m₂) exponent
          (accuracyOfFraction (m₁ <<< shift % m₂) m₂) := by
    rw [← hamount, ← hexponent]
    rfl
  have hextends := extends_div (m₁ <<< shift) hpos₂
  have hscaled : ((m₁ <<< shift : Nat) / m₂ : ℚ) * 2 ^ exponent =
      m₁ * 2 ^ e₁ / (m₂ * 2 ^ e₂) := by
    have hpower : (2 : ℚ) ^ shift * 2 ^ exponent = 2 ^ e₁ / 2 ^ e₂ := by
      rw [← zpow_natCast, ← zpow_add₀ (by norm_num), ← zpow_sub₀ (by norm_num), add_comm, hshift]
    rw [Nat.shiftLeft_eq]
    push_cast
    rw [div_mul_eq_mul_div, mul_assoc, hpower, mul_div_assoc', div_div, mul_comm (2 ^ e₂)]
  have hle : exponent ≤
      Format.targetExponent .binary64 (totalExponent (m₁ <<< shift / m₂) exponent) := by
    rw [targetExponent_eq, totalExponent]
    by_cases hsmall : exponent ≤ -1074
    · exact hsmall.trans (le_max_right _ _)
    · -- The dividend was shifted so far that the quotient fills the places.
      have hplaces : 2 ^ 52 * m₂ ≤ m₁ <<< shift := by
        calc 2 ^ 52 * m₂ ≤ 2 ^ 52 * 2 ^ (m₂.log2 + 1) := Nat.mul_le_mul_left _ Nat.lt_log2_self.le
          _ = 2 ^ (52 + (m₂.log2 + 1)) := (Nat.pow_add 2 52 _).symm
          _ ≤ 2 ^ (m₁.log2 + shift) := Nat.pow_le_pow_right Nat.two_pos (by omega)
          _ = 2 ^ m₁.log2 * 2 ^ shift := Nat.pow_add 2 _ _
          _ ≤ m₁ * 2 ^ shift := Nat.mul_le_mul_right _ (Nat.log2_self_le hpos₁.ne')
          _ = m₁ <<< shift := (Nat.shiftLeft_eq _ _).symm
      have hquotient : 2 ^ 52 ≤ m₁ <<< shift / m₂ := (Nat.le_div_iff_mul_le hpos₂).2 hplaces
      have hlog := (Nat.le_log2 (by omega)).2 hquotient
      refine le_trans ?_ (le_max_left _ _)
      omega
  rw [← hscaled, hdiv]
  exact nearest_pack_roundWithAccuracy hextends hle

/-! ## Whole numbers -/

/-- A whole number becomes the number nearest to it. -/
theorem nearest_pack_ofNat {n : Nat} (hpos : 0 < n) :
    Nearest n (UnpackedFloat.pack .binary64 (UnpackedFloat.ofNat .binary64 n)).toNat := by
  have htarget := targetExponent_eq (totalExponent n 0)
  generalize hexponent : Format.targetExponent .binary64 (totalExponent n 0) = exponent at htarget
  generalize hshift : (0 - exponent).toNat = shift
  have hround : UnpackedFloat.ofNat .binary64 n =
      roundWithAccuracy .binary64 .positive (n <<< shift) (0 - shift) .exact := by
    have hgreater : compare (n : ℤ) 0 = .gt := Int.compare_eq_gt.2 (by exact_mod_cast hpos)
    unfold UnpackedFloat.ofNat UnpackedFloat.ofInt UnpackedFloat.normalize
    rw [hgreater, ← hshift, ← hexponent]
    rfl
  have hextends : Extends (.ofMantissaAndAccuracy (n <<< shift) .exact) (n <<< shift : Nat) := rfl
  have hscaled : ((n <<< shift : Nat) : ℚ) * 2 ^ (0 - shift : ℤ) = n := by
    rw [Nat.shiftLeft_eq, zero_sub, zpow_neg, zpow_natCast]
    push_cast
    exact mul_inv_cancel_right₀ (by positivity) _
  have hle : (0 - shift : ℤ) ≤
      Format.targetExponent .binary64 (totalExponent (n <<< shift) (0 - shift)) := by
    have hlog : n.log2 + shift ≤ (n <<< shift).log2 := by
      rw [Nat.shiftLeft_eq, Nat.le_log2 (by positivity), Nat.pow_add]
      exact Nat.mul_le_mul_right _ (Nat.log2_self_le hpos.ne')
    rw [targetExponent_eq, totalExponent]
    rw [totalExponent] at htarget
    omega
  have h := nearest_pack_roundWithAccuracy hextends hle
  rw [hscaled, ← hround] at h
  exact h

end LoxLang
