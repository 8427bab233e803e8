import LoxLang.Decimal.Layout
import LoxLang.Proofs.Decimal.Nearest
import LoxLang.Proofs.Decimal.Shortest
import LoxLang.Token.Piece

/-!
# Decimals are read as the nearest number

A decimal is read as the number nearest to it (`nearest_ofScientific`), whether it is short enough
for a quotient of two exact numbers or goes through the exact quotient of whole numbers.  So digits
around a point are read as the number nearest to what they stand for (`nearest_decimalValue`).
-/

namespace LoxLang

open Float.Model Float.Model.UnpackedFloat

open Magnitude (Nearest)

/-! ## The parts of a finite number -/

theorem toNat_unpackMantissa (b : BitVec 64) :
    (@unpackMantissa .binary64 b).toNat = b.toNat % 2 ^ 52 := by
  unfold unpackMantissa
  rw [BitVec.toNat_cast, BitVec.extractLsb_toNat]
  rfl

theorem toNat_unpackExponent (b : BitVec 64) :
    (@unpackExponent .binary64 b).toNat = b.toNat / 2 ^ 52 % 2 ^ 11 := by
  unfold unpackExponent
  rw [BitVec.toNat_cast, BitVec.extractLsb_toNat, Nat.shiftRight_eq_div_pow]
  rfl

theorem toNat_unpackSign (b : BitVec 64) :
    (@unpackSign .binary64 b).toNat = b.toNat / 2 ^ 63 := by
  have hlt := b.isLt
  unfold unpackSign
  rw [BitVec.toNat_cast, BitVec.extractLsb_toNat, Nat.shiftRight_eq_div_pow]
  show b.toNat / 2 ^ 63 % 2 ^ 1 = b.toNat / 2 ^ 63
  omega

/-- The sign of a number. -/
def signOf (x : Float) : Sign :=
  if Layout.signBit x then .negative else .positive

theorem ofBitVec_unpackSign (x : Float) :
    Sign.ofBitVec (@unpackSign .binary64 x.toModel.toBits.toBitVec) = signOf x := by
  have hequal := toNat_unpackSign x.toModel.toBits.toBitVec
  have hsign : Layout.signBit x = (x.toModel.toBits.toBitVec.toNat / 2 ^ 63 == 1) := rfl
  have hlt := x.toModel.toBits.toBitVec.isLt
  rw [signOf, hsign, ← hequal, Sign.ofBitVec]
  generalize @unpackSign .binary64 x.toModel.toBits.toBitVec = sign at hequal
  rcases BitVec.eq_zero_or_eq_one sign with rfl | rfl <;> rfl

/-- A finite number is its sign with the mantissa and exponent of its magnitude. -/
theorem unpack_eq {x : Float} (hfinite : x.toBits.toNat % 2 ^ 63 < 2047 * 2 ^ 52) :
    x.toModel.unpack =
      ofMantissa (signOf x) (Magnitude.ofBits (x.toBits.toNat % 2 ^ 63)).mantissa
        (Magnitude.ofBits (x.toBits.toNat % 2 ^ 63)).exponent := by
  rw [← ofBitVec_unpackSign]
  have hnat : x.toBits.toNat = x.toModel.toBits.toBitVec.toNat := rfl
  rw [hnat] at hfinite ⊢
  unfold Float.Model.unpack UnpackedFloat.unpack
  generalize x.toModel.toBits.toBitVec = bits at hfinite ⊢
  have hexponent := toNat_unpackExponent bits
  have hmantissa := toNat_unpackMantissa bits
  dsimp only
  have hall : @unpackExponent .binary64 bits ≠ -1#11 := by
    intro heq
    have hones : (-1#11 : BitVec 11).toNat = 2047 := rfl
    rw [heq, hones] at hexponent
    omega
  rw [if_neg hall]
  by_cases hzero : @unpackExponent .binary64 bits = 0#11
  · -- The first place of the mantissa is not set.
    rw [if_pos hzero]
    rw [hzero] at hexponent
    have hbiased : bits.toNat % 2 ^ 63 / 2 ^ 52 = 0 := by
      have hzero' : (0#11).toNat = 0 := rfl
      omega
    have hfraction : bits.toNat % 2 ^ 63 % 2 ^ 52 = bits.toNat % 2 ^ 52 := by omega
    rw [Magnitude.ofBits, if_pos hbiased, hfraction, ← hmantissa]
    by_cases hnone : @unpackMantissa .binary64 bits = 0#52
    · rw [dif_pos hnone, hnone]
      exact (ofMantissa_zero _ _).symm
    · have hpos : 0 < (@unpackMantissa .binary64 bits).toNat :=
        Nat.pos_of_ne_zero fun hzero => hnone (BitVec.eq_of_toNat_eq hzero)
      rw [dif_neg hnone, ofMantissa_of_pos hpos, hzero]
      rfl
  · rw [if_neg hzero]
    have hbiased : bits.toNat % 2 ^ 63 / 2 ^ 52 = bits.toNat / 2 ^ 52 % 2 ^ 11 := by omega
    have hne : bits.toNat / 2 ^ 52 % 2 ^ 11 ≠ 0 := by
      rw [← hexponent]
      exact fun hnone => hzero (BitVec.eq_of_toNat_eq hnone)
    have hfraction : bits.toNat % 2 ^ 63 % 2 ^ 52 = bits.toNat % 2 ^ 52 := by omega
    have hfirst : (1#1 ++ @unpackMantissa .binary64 bits).toNat =
        2 ^ 52 + bits.toNat % 2 ^ 52 := by
      rw [BitVec.toNat_append, ← Nat.shiftLeft_add_eq_or_of_lt (BitVec.isLt _), hmantissa]
      rfl
    rw [Magnitude.ofBits, hbiased, hfraction, if_neg hne]
    rw [ofMantissa_of_pos (Nat.add_pos_left (by decide) _)]
    refine (UnpackedFloat.finite.injEq ..).mpr ⟨rfl, hfirst, ?_⟩
    rw [hexponent]
    rfl

namespace Magnitude

/-- Every whole number of at most fifty-three places is a magnitude. -/
theorem exists_value_eq {n : Nat} (hpos : 0 < n) (hlt : n < 2 ^ 53) :
    ∃ bits, 0 < bits ∧ bits < 2047 * 2 ^ 52 ∧ (ofBits bits).value = n := by
  have hlog : n.log2 ≤ 52 := Nat.lt_succ_iff.1 ((Nat.log2_lt hpos.ne').2 hlt)
  obtain ⟨shift, hshift⟩ := Nat.exists_eq_add_of_le hlog
  have hleast : 2 ^ 52 ≤ n * 2 ^ shift := by
    rw [hshift, Nat.pow_add]
    exact Nat.mul_le_mul_right _ (Nat.log2_self_le hpos.ne')
  have hgreatest : n * 2 ^ shift < 2 ^ 53 := by
    have hplaces : 53 = (n.log2 + 1) + shift := by omega
    rw [hplaces, Nat.pow_add]
    exact Nat.mul_lt_mul_of_pos_right Nat.lt_log2_self (Nat.pow_pos Nat.two_pos)
  refine ⟨(1074 - shift) * 2 ^ 52 + n * 2 ^ shift, by omega, by omega, ?_⟩
  have hexponent : ((1074 - shift : Nat) : ℤ) - 1074 = -shift := by omega
  rw [value_canonical hgreatest (.inl hleast), hexponent, zpow_neg, zpow_natCast]
  push_cast
  exact mul_inv_cancel_right₀ (by positivity) _

end Magnitude

/-! ## Short decimals -/

theorem unpack_of_pos {x : Float} (hpos : 0 < x.toBits.toNat)
    (hgreatest : x.toBits.toNat < 2047 * 2 ^ 52) :
    x.toModel.unpack = .finite .positive (Magnitude.ofBits x.toBits.toNat).mantissa
      (Magnitude.ofBits x.toBits.toNat).exponent (Magnitude.mantissa_ofBits_pos hpos) := by
  have hmod : x.toBits.toNat % 2 ^ 63 = x.toBits.toNat := by omega
  have hsign : signOf x = .positive := by
    have hplus : x.toBits.toNat / 2 ^ 63 = 0 := by omega
    have hbit : Layout.signBit x = (x.toBits.toNat / 2 ^ 63 == 1) := rfl
    rw [signOf, hbit, hplus]
    rfl
  have hunpack := unpack_eq (x := x) (hmod.symm ▸ hgreatest)
  rw [hmod, hsign, ofMantissa_of_pos (Magnitude.mantissa_ofBits_pos hpos)] at hunpack
  exact hunpack

/-- The quotient of two positive numbers is the number nearest to the exact quotient. -/
theorem nearest_toBits_div {x y : Float} (hpos : 0 < x.toBits.toNat)
    (hgreatest : x.toBits.toNat < 2047 * 2 ^ 52) (hpos' : 0 < y.toBits.toNat)
    (hgreatest' : y.toBits.toNat < 2047 * 2 ^ 52) :
    Nearest ((Magnitude.ofBits x.toBits.toNat).value / (Magnitude.ofBits y.toBits.toNat).value)
      (x / y).toBits.toNat := by
  have hdiv : (x / y).toBits.toNat = (UnpackedFloat.pack .binary64
      (UnpackedFloat.div .binary64 x.toModel.unpack y.toModel.unpack)).toNat := rfl
  rw [hdiv, unpack_of_pos hpos hgreatest, unpack_of_pos hpos' hgreatest']
  exact nearest_pack_div _ _ _ _

/-- The powers of ten that are numbers. -/
theorem whole?_powerOfTen : ∀ places : Fin Float.exactlyRepresentablePowersOfTen.size,
    let power := Float.exactlyRepresentablePowersOfTen[places]
    0 < power.toBits.toNat ∧ power.toBits.toNat < 2047 * 2 ^ 52 ∧
      (Magnitude.ofBits power.toBits.toNat).whole? = some (10 ^ places.val) := by
  decide

/-- A short whole number becomes the number nearest to it. -/
theorem nearest_toBits_toFloat {n : Nat} (hpos : 0 < n) (hlt : n < 2 ^ 53) :
    Nearest n n.toUInt64.toFloat.toBits.toNat := by
  have hnat : n.toUInt64.toNat = n := UInt64.toNat_ofNat_of_lt (hlt.trans (by decide))
  have hfloat : n.toUInt64.toFloat.toBits.toNat =
      (UnpackedFloat.pack .binary64 (UnpackedFloat.ofNat .binary64 n.toUInt64.toNat)).toNat := rfl
  rw [hfloat, hnat]
  exact nearest_pack_ofNat hpos

/-- A short decimal is the quotient of two exact numbers. -/
theorem nearest_short {m places : Nat} (hpos : 0 < m) (hlt : m < 2 ^ 53)
    (hplaces : places < Float.exactlyRepresentablePowersOfTen.size) :
    Nearest (m / 10 ^ places) (Float.ofScientific m true places).toBits.toNat := by
  obtain ⟨dividend, hdividend, hdividend', hvalue⟩ := Magnitude.exists_value_eq hpos hlt
  have hexact : (Magnitude.ofBits dividend).Rounds m := hvalue ▸ Magnitude.rounds_value _
  have hm := (nearest_toBits_toFloat hpos hlt).eq (hexact.nearest hdividend')
  obtain ⟨hpower, hpower', hwhole⟩ := whole?_powerOfTen ⟨places, hplaces⟩
  dsimp only at hpower hpower' hwhole
  have hshort : Float.ofScientific m true places = m.toUInt64.toFloat /
      Float.exactlyRepresentablePowersOfTen[(⟨places, hplaces⟩ : Fin _)] := by
    unfold Float.ofScientific
    rw [dif_pos ⟨hlt, Nat.lt_succ_iff.1 hplaces⟩, if_pos rfl]
    rfl
  generalize Float.exactlyRepresentablePowersOfTen[(⟨places, hplaces⟩ : Fin _)] = power at *
  rw [← hm] at hdividend hdividend' hvalue
  have hdiv := nearest_toBits_div hdividend hdividend' hpower hpower'
  rw [hvalue, Magnitude.value_of_whole? hwhole, ← hshort] at hdiv
  push_cast at hdiv
  exact hdiv

/-! ## All decimals -/

theorem nearest_zero (places : Nat) :
    Nearest 0 (Float.ofScientific 0 true places).toBits.toNat := by
  have hzero : (Float.ofScientific 0 true places).toBits.toNat = 0 := by
    by_cases hshort : places < 23
    · have hall : ∀ places : Fin 23, (Float.ofScientific 0 true places.val).toBits.toNat = 0 := by
        decide
      exact hall ⟨places, hshort⟩
    · have hlong : ¬((0 : Nat) < 2 ^ 53 ∧ places ≤ 22) := by omega
      unfold Float.ofScientific
      rw [dif_neg hlong]
      rfl
  rw [hzero]
  exact Magnitude.rounds_zero.nearest (by norm_num)

theorem mul_two_pow_lt {m shift places : Nat} (hlt : m.log2 + shift < places) :
    m * 2 ^ shift < 10 ^ places := by
  calc m * 2 ^ shift < 2 ^ (m.log2 + 1) * 2 ^ shift :=
        Nat.mul_lt_mul_of_pos_right Nat.lt_log2_self (Nat.pow_pos Nat.two_pos)
    _ = 2 ^ (m.log2 + 1 + shift) := (Nat.pow_add 2 _ _).symm
    _ ≤ 2 ^ places := Nat.pow_le_pow_right Nat.two_pos (by omega)
    _ ≤ 10 ^ places := Nat.pow_le_pow_left (by decide) _

/-- Far below the least magnitude everything rounds to zero. -/
theorem rounds_zero_of_lt {m places : Nat} (hlt : 2048 + m.log2 < places) :
    (Magnitude.ofBits 0).Rounds (m / 10 ^ places) := by
  have hhigh : (Magnitude.ofBits 0).high = 1 / 2 ^ 1075 := by
    have hexponent : (-1074 : ℤ) = -(1074 : Nat) := rfl
    show ((0 : Nat) + 1 / 2 : ℚ) * 2 ^ (-1074 : ℤ) = 1 / 2 ^ 1075
    rw [hexponent, zpow_neg, zpow_natCast, Nat.cast_zero, zero_add, one_div, one_div, ← mul_inv,
      ← pow_succ']
  have hlow : (Magnitude.ofBits 0).low < 0 := by
    show ((0 : Nat) - 1 / 2 : ℚ) * 2 ^ (-1074 : ℤ) < 0
    exact mul_neg_of_neg_of_pos (by norm_num) (Magnitude.pos_two_zpow _)
  have hsmall : m * 2 ^ 1075 < 10 ^ places := mul_two_pow_lt (by omega)
  refine Magnitude.rounds_of_lt (hlow.trans_le (by positivity)) ?_
  rw [hhigh, div_lt_div_iff₀ (by positivity) (by positivity), one_mul]
  exact_mod_cast hsmall

/-- Without places behind the point the whole number is multiplied with one. -/
theorem nearest_pack_mul_one {m : Nat} (hpos : 0 < m) :
    Nearest m (UnpackedFloat.pack .binary64 (UnpackedFloat.ofScientific .binary64 m 0)).toNat := by
  have hextends : Extends (.ofMantissaAndAccuracy (m <<< 53 * 1) .exact) (m <<< 53 * 1 : Nat) := rfl
  have hscaled : ((m <<< 53 * 1 : Nat) : ℚ) * 2 ^ (-53 + 0 : ℤ) = m := by
    rw [Nat.shiftLeft_eq, add_zero, zpow_neg, zpow_ofNat]
    push_cast
    rw [mul_one]
    exact mul_inv_cancel_right₀ (by norm_num) _
  have hle : (-53 + 0 : ℤ) ≤
      Format.targetExponent .binary64 (totalExponent (m <<< 53 * 1) (-53 + 0)) := by
    have hlog : m.log2 + 53 ≤ (m <<< 53 * 1).log2 := by
      rw [Nat.mul_one, Nat.shiftLeft_eq, Nat.le_log2 (by positivity), Nat.pow_add]
      exact Nat.mul_le_mul_right _ (Nat.log2_self_le hpos.ne')
    rw [targetExponent_eq, totalExponent]
    omega
  have hmul : UnpackedFloat.ofScientific .binary64 m 0 =
      roundWithAccuracy .binary64 .positive (m <<< 53 * 1) (-53 + 0) .exact := by
    have hnear : ¬(0 : ℤ) < -(2 ^ 11 + m.log2) := by omega
    unfold UnpackedFloat.ofScientific
    rw [dif_neg hpos.ne', if_neg (by decide), if_neg hnear, if_pos (le_refl _)]
    rfl
  have h := nearest_pack_roundWithAccuracy hextends hle
  rw [hscaled, ← hmul] at h
  exact h

theorem nearest_pack_ofScientific {m : Nat} (hpos : 0 < m) (places : Nat) :
    Nearest (m / 10 ^ places) (UnpackedFloat.pack .binary64
      (UnpackedFloat.ofScientific .binary64 m (-places))).toNat := by
  rcases Nat.eq_zero_or_pos places with rfl | hplaces
  · have h := nearest_pack_mul_one hpos
    rw [pow_zero, div_one]
    exact h
  by_cases hfar : (-places : ℤ) < -(2 ^ 11 + m.log2)
  · refine ⟨0, rounds_zero_of_lt (by omega), ?_⟩
    have hnear : ¬(-places : ℤ) > 2 ^ 11 := by omega
    unfold UnpackedFloat.ofScientific
    rw [dif_neg hpos.ne', if_neg hnear, if_pos hfar]
    rfl
  · have hnear : ¬(-places : ℤ) > 2 ^ 11 := by omega
    have hnegative : ¬(0 : ℤ) ≤ -places := by omega
    have htoNat : (-(-places : ℤ)).toNat = places := by omega
    have hdiv : UnpackedFloat.ofScientific .binary64 m (-places) =
        UnpackedFloat.div .binary64 (.finite .positive m 0 hpos)
          (.finite .positive (10 ^ places) 0 (Nat.pow_pos (by decide))) := by
      unfold UnpackedFloat.ofScientific
      rw [dif_neg hpos.ne', if_neg hnear, if_neg hfar, if_neg hnegative]
      exact congrArg (UnpackedFloat.div .binary64 _)
        ((UnpackedFloat.finite.injEq ..).mpr ⟨rfl, congrArg (10 ^ ·) htoNat, rfl⟩)
    have h := nearest_pack_div 0 0 hpos (Nat.pow_pos (by decide) : 0 < 10 ^ places)
    rw [← hdiv, zpow_zero, mul_one, mul_one] at h
    push_cast at h
    exact h

/-- What is read for a decimal is the number nearest to it. -/
theorem nearest_ofScientific (m places : Nat) :
    Nearest (m / 10 ^ places) (Float.ofScientific m true places).toBits.toNat := by
  rcases Nat.eq_zero_or_pos m with rfl | hpos
  · rw [Nat.cast_zero, zero_div]
    exact nearest_zero places
  by_cases hshort : m < 2 ^ 53 ∧ places < 23
  · exact nearest_short hpos hshort.1 hshort.2
  · have hlong : (Float.ofScientific m true places).toBits.toNat =
        (UnpackedFloat.pack .binary64
          (UnpackedFloat.ofScientific .binary64 m (-places))).toNat := by
      have hnegative : (-places : ℤ) = Int.negOfNat places := Int.negOfNat_eq.symm
      unfold Float.ofScientific
      rw [dif_neg (by omega), hnegative]
      rfl
    rw [hlong]
    exact nearest_pack_ofScientific hpos places

/-! ## Digits around a point -/

/-- The number that digits in front of a point and behind it stand for. -/
def pointed (whole fraction : List Char) : ℚ :=
  Nat.ofDigitChars 10 (whole ++ fraction) 0 / 10 ^ fraction.length

theorem pointed_nil (whole : List Char) : pointed whole [] = Nat.ofDigitChars 10 whole 0 := by
  rw [pointed, List.append_nil, List.length_nil, pow_zero, div_one]

/-- Digits around a point are read as the number nearest to what they stand for. -/
theorem nearest_decimalValue (whole fraction : List Char) :
    Nearest (pointed whole fraction) (decimalValue whole fraction).toBits.toNat :=
  nearest_ofScientific _ _

end LoxLang
