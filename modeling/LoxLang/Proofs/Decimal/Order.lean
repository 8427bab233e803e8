import Mathlib.Algebra.Order.Field.Power
import LoxLang.Proofs.Decimal.Reading

/-!
# The order of the numbers

Numbers without a sign are in the order of their bits (`le_iff_toNat_toBits_le`), greater numbers
round to greater magnitudes (`Magnitude.Rounds.mono`), and so the order of magnitude of a shortest
decimal is told by comparing the number with one that a power of ten rounds to
(`Magnitude.le_order_shortest_iff`).
-/

namespace LoxLang

open Float.Model Float.Model.UnpackedFloat

/-! ## Finite numbers -/

theorem isFinite_ofMantissa (sign : Sign) (m : Nat) (e : ℤ) : (ofMantissa sign m e).isFinite := by
  rcases Nat.eq_zero_or_pos m with rfl | hpos
  · rw [ofMantissa_zero]
    rfl
  · rw [ofMantissa_of_pos hpos]
    rfl

/-- The numbers that are not finite have the greatest exponent. -/
theorem isFinite_iff {x : Float} :
    x.isFinite ↔ x.toBits.toNat % 2 ^ 63 < 2047 * 2 ^ 52 := by
  have hmodel : x.isFinite = x.toModel.unpack.isFinite := rfl
  rw [hmodel]
  constructor
  · intro hfinite
    by_contra hlarge
    have hnat : x.toBits.toNat = x.toModel.toBits.toBitVec.toNat := rfl
    rw [hnat] at hlarge
    unfold Float.Model.unpack UnpackedFloat.unpack at hfinite
    generalize x.toModel.toBits.toBitVec = bits at hlarge hfinite
    have hexponent := toNat_unpackExponent bits
    have hall : @unpackExponent .binary64 bits = -1#11 := by
      refine BitVec.eq_of_toNat_eq ?_
      have hones : (-1#11 : BitVec 11).toNat = 2047 := rfl
      have hlt := bits.isLt
      omega
    dsimp only at hfinite
    rw [if_pos hall] at hfinite
    split at hfinite
    · cases hfinite
    · cases hfinite
  · intro hlt
    rw [unpack_eq hlt]
    exact isFinite_ofMantissa _ _ _

theorem isNaN_eq_false_of_isFinite {x : Float} (h : x.isFinite) : x.isNaN = false := by
  have hfinite : x.toModel.unpack.isFinite := h
  show x.toModel.unpack.isNaN = false
  cases hunpack : x.toModel.unpack with
  | notANumber =>
      rw [hunpack] at hfinite
      cases hfinite
  | _ => rfl

theorem isInf_eq_false_of_isFinite {x : Float} (h : x.isFinite) : x.isInf = false := by
  have hfinite : x.toModel.unpack.isFinite := h
  show x.toModel.unpack.isInf = false
  cases hunpack : x.toModel.unpack with
  | infinity sign =>
      rw [hunpack] at hfinite
      cases hfinite
  | _ => rfl

/-! ## Comparing numbers -/

/-- A greater magnitude has a greater exponent, or the same one and a greater mantissa. -/
theorem Magnitude.ofBits_lt {bits other : Nat} (hlt : bits < other) :
    (ofBits bits).exponent < (ofBits other).exponent ∨
      (ofBits bits).exponent = (ofBits other).exponent ∧
        (ofBits bits).mantissa < (ofBits other).mantissa := by
  unfold ofBits
  split
  · split
    · exact .inr ⟨rfl, by show bits % 2 ^ 52 < other % 2 ^ 52; omega⟩
    · -- The least exponent belongs to two groups of magnitudes.
      rcases Nat.lt_or_ge 1 (other / 2 ^ 52) with hgreater | hle
      · left
        show (-1074 : ℤ) < (other / 2 ^ 52 : Nat) - 1075
        omega
      · right
        refine ⟨?_, ?_⟩
        · show (-1074 : ℤ) = (other / 2 ^ 52 : Nat) - 1075
          omega
        · show bits % 2 ^ 52 < 2 ^ 52 + other % 2 ^ 52
          omega
  · split
    · omega
    · rcases Nat.lt_or_ge (bits / 2 ^ 52) (other / 2 ^ 52) with hgreater | hle
      · left
        show ((bits / 2 ^ 52 : Nat) - 1075 : ℤ) < (other / 2 ^ 52 : Nat) - 1075
        omega
      · right
        refine ⟨?_, ?_⟩
        · show ((bits / 2 ^ 52 : Nat) - 1075 : ℤ) = (other / 2 ^ 52 : Nat) - 1075
          omega
        · show 2 ^ 52 + bits % 2 ^ 52 < 2 ^ 52 + other % 2 ^ 52
          omega

/-- Magnitudes are compared by their exponents first and then by their mantissas. -/
theorem Magnitude.compare_ofBits (bits other : Nat) :
    (compare (ofBits bits).exponent (ofBits other).exponent).then
      (compare (ofBits bits).mantissa (ofBits other).mantissa) = compare bits other := by
  have hless {bits other : Nat} (hlt : bits < other) :
      (compare (ofBits bits).exponent (ofBits other).exponent).then
        (compare (ofBits bits).mantissa (ofBits other).mantissa) = .lt := by
    rw [Ordering.then_eq_lt, Int.compare_eq_lt, Int.compare_eq_eq, Nat.compare_eq_lt]
    exact ofBits_lt hlt
  rcases Nat.lt_trichotomy bits other with hlt | rfl | hgt
  · rw [hless hlt, Nat.compare_eq_lt.2 hlt]
  · rw [Int.compare_eq_eq.2 rfl, Nat.compare_eq_eq.2 rfl, Nat.compare_eq_eq.2 rfl]
    rfl
  · have hswap := congrArg Ordering.swap (hless hgt)
    rw [Ordering.swap_then, Int.compare_swap, Nat.compare_swap] at hswap
    rw [hswap, Nat.compare_eq_gt.2 hgt]
    rfl

/-- Numbers without a sign are compared by their bits. -/
theorem compare_unpack {x y : Float} (hx : x.toBits.toNat < 2047 * 2 ^ 52)
    (hy : y.toBits.toNat < 2047 * 2 ^ 52) :
    x.toModel.unpack.compare y.toModel.unpack = some (compare x.toBits.toNat y.toBits.toNat) := by
  have hzero {z : Float} (hz : z.toBits.toNat = 0) : z.toModel.unpack = .zero .positive := by
    have hplus : signOf z = .positive := by
      have hbit : Layout.signBit z = (z.toBits.toNat / 2 ^ 63 == 1) := rfl
      rw [signOf, hbit, hz]
      rfl
    rw [unpack_eq (by rw [hz]; norm_num), hz, hplus]
    rfl
  rcases Nat.eq_zero_or_pos x.toBits.toNat with hx0 | hx0
  · rcases Nat.eq_zero_or_pos y.toBits.toNat with hy0 | hy0
    · rw [hzero hx0, hzero hy0, hx0, hy0]
      rfl
    · rw [hzero hx0, unpack_of_pos hy0 hy, hx0, Nat.compare_eq_lt.2 hy0]
      rfl
  · rcases Nat.eq_zero_or_pos y.toBits.toNat with hy0 | hy0
    · rw [unpack_of_pos hx0 hx, hzero hy0, hy0, Nat.compare_eq_gt.2 hx0]
      rfl
    · rw [unpack_of_pos hx0 hx, unpack_of_pos hy0 hy]
      exact congrArg some (Magnitude.compare_ofBits _ _)

theorem le_iff_compare {x y : Float} :
    x ≤ y ↔ (x.toModel.unpack.compare y.toModel.unpack).any (·.isLE) := by
  show decide (x.toModel ≤ y.toModel) = true ↔ _
  rw [decide_eq_true_iff]
  rfl

theorem lt_iff_compare {x y : Float} :
    x < y ↔ x.toModel.unpack.compare y.toModel.unpack = some .lt := by
  show decide (x.toModel < y.toModel) = true ↔ _
  rw [decide_eq_true_iff]
  show (x.toModel.unpack.compare y.toModel.unpack == some .lt) = true ↔ _
  exact beq_iff_eq

theorem le_iff_toNat_toBits_le {x y : Float} (hx : x.toBits.toNat < 2047 * 2 ^ 52)
    (hy : y.toBits.toNat < 2047 * 2 ^ 52) : x ≤ y ↔ x.toBits.toNat ≤ y.toBits.toNat := by
  rw [le_iff_compare, compare_unpack hx hy]
  exact Nat.isLE_compare

theorem lt_iff_toNat_toBits_lt {x y : Float} (hx : x.toBits.toNat < 2047 * 2 ^ 52)
    (hy : y.toBits.toNat < 2047 * 2 ^ 52) : x < y ↔ x.toBits.toNat < y.toBits.toNat := by
  rw [lt_iff_compare, compare_unpack hx hy, Option.some.injEq]
  exact Nat.compare_eq_lt

theorem compare_ofMantissa_negative (m : Nat) (e : ℤ) (hpos : 0 < m) (m' : Nat) (e' : ℤ) :
    (UnpackedFloat.finite .positive m e hpos).compare (ofMantissa .negative m' e') =
      some .gt := by
  rcases Nat.eq_zero_or_pos m' with rfl | hpos'
  · rw [ofMantissa_zero]
    rfl
  · rw [ofMantissa_of_pos hpos']
    rfl

/-- A number with a minus sign is not above a positive one. -/
theorem not_le_of_signBit {x y : Float} (hpos : 0 < x.toBits.toNat)
    (hgreatest : x.toBits.toNat < 2047 * 2 ^ 52) (hfinite : y.isFinite)
    (hsign : Layout.signBit y) : ¬x ≤ y := by
  have hgreater : x.toModel.unpack.compare y.toModel.unpack = some .gt := by
    rw [unpack_of_pos hpos hgreatest, unpack_eq (isFinite_iff.1 hfinite), signOf, if_pos hsign]
    exact compare_ofMantissa_negative _ _ _ _ _
  rw [le_iff_compare, hgreater]
  exact Bool.false_ne_true

/-! ## Absolute values -/

/-- The bits of a magnitude fall into a mantissa and the number of exponents below its own. -/
theorem Magnitude.exists_canonical (bits : Nat) :
    ∃ m steps, m < 2 ^ 53 ∧ (2 ^ 52 ≤ m ∨ steps = 0) ∧ bits = steps * 2 ^ 52 + m := by
  rcases Nat.eq_zero_or_pos (bits / 2 ^ 52) with hzero | hpos
  · exact ⟨bits, 0, by omega, .inr rfl, by omega⟩
  · exact ⟨2 ^ 52 + bits % 2 ^ 52, bits / 2 ^ 52 - 1, by omega, .inl (by omega), by omega⟩

theorem toNat_toBits_abs {x : Float} (hfinite : x.isFinite) :
    x.abs.toBits.toNat = x.toBits.toNat % 2 ^ 63 := by
  have hgreatest := isFinite_iff.1 hfinite
  have habs : x.abs.toBits.toNat =
      (UnpackedFloat.pack .binary64 x.toModel.unpack.abs).toNat := rfl
  have hsign (sign : Sign) (m : Nat) (e : ℤ) :
      (ofMantissa sign m e).abs = ofMantissa .positive m e := by
    rcases Nat.eq_zero_or_pos m with rfl | hpos
    · rw [ofMantissa_zero, ofMantissa_zero]
      rfl
    · rw [ofMantissa_of_pos hpos, ofMantissa_of_pos hpos]
      rfl
  rw [habs, unpack_eq hgreatest, hsign]
  generalize x.toBits.toNat % 2 ^ 63 = bits at hgreatest ⊢
  obtain ⟨m, steps, hlt, hleast, rfl⟩ := Magnitude.exists_canonical bits
  obtain ⟨hmantissa, hexponent⟩ := Magnitude.ofBits_canonical hlt hleast
  rw [hmantissa, hexponent, toNat_pack_ofMantissa hlt hleast, Nat.min_eq_left hgreatest.le]

/-! ## Orders of magnitude -/

namespace Decimal

variable {d : Decimal}

theorem pow_order_le (h : d.coefficient ≠ 0) : (10 : ℚ) ^ d.order ≤ d.value := by
  have hlength := Nat.length_toDigits_pos (b := 10) (n := d.coefficient)
  have horder : d.order = ((Nat.toDigits 10 d.coefficient).length - 1 : Nat) + d.exponent := by
    rw [order, if_neg h]
    omega
  have hle : (10 : ℚ) ^ ((Nat.toDigits 10 d.coefficient).length - 1) ≤ d.coefficient := by
    exact_mod_cast Magnitude.pow_le_of_length_toDigits (Nat.pos_of_ne_zero h)
  rw [value, horder, zpow_add₀ (by norm_num), zpow_natCast]
  exact mul_le_mul_of_nonneg_right hle (by positivity)

theorem lt_pow_order_add_one (h : d.coefficient ≠ 0) : d.value < (10 : ℚ) ^ (d.order + 1) := by
  have horder : d.order + 1 = (Nat.toDigits 10 d.coefficient).length + d.exponent := by
    rw [order, if_neg h]
    ring
  have hlt : (d.coefficient : ℚ) < 10 ^ (Nat.toDigits 10 d.coefficient).length := by
    exact_mod_cast Magnitude.lt_pow_length_toDigits d.coefficient
  rw [value, horder, zpow_add₀ (by norm_num), zpow_natCast]
  exact mul_lt_mul_of_pos_right hlt (by positivity)

/-- The order of a decimal is the greatest power of ten that is not above it. -/
theorem le_order_iff (h : d.coefficient ≠ 0) (power : ℤ) :
    power ≤ d.order ↔ (10 : ℚ) ^ power ≤ d.value := by
  constructor
  · intro hle
    exact (zpow_le_zpow_right₀ (by norm_num) hle).trans (pow_order_le h)
  · intro hle
    have hlt := hle.trans_lt (lt_pow_order_add_one h)
    have hless := (zpow_lt_zpow_iff_right₀ (by norm_num : (1 : ℚ) < 10)).1 hlt
    omega

end Decimal

namespace Magnitude

/-- Whether a number has at least some order of magnitude is told by comparing it with the number
that has the power of ten as its shortest decimal. -/
theorem le_order_shortest_iff {power : ℤ} {least bits : Nat} {tie : Tie} (hleast : 0 < least)
    (hpower : ((ofBits least).shortest tie).value = 10 ^ power) (hpos : 0 < bits) :
    power ≤ ((ofBits bits).shortest tie).order ↔ least ≤ bits := by
  have hleast' := rounds_shortest (mantissa_ofBits_pos hleast) tie
  have hbits := rounds_shortest (mantissa_ofBits_pos hpos) tie
  rw [Decimal.le_order_iff (coefficient_shortest_ne_zero hpos tie), ← hpower]
  constructor
  · exact hleast'.mono hbits
  · intro hle
    rcases Nat.eq_or_lt_of_le hle with rfl | hlt
    · exact le_rfl
    · by_contra hless
      exact Nat.not_le.2 hlt (hbits.mono hleast' (not_le.1 hless).le)

end Magnitude

end LoxLang
