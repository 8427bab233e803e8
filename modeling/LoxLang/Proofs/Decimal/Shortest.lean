import LoxLang.Proofs.Decimal.Rounding

/-!
# The shortest decimal

The decimal that is found for a magnitude rounds to it (`Magnitude.rounds_shortest`).  What the
search compares are whole numbers, but it is the ends of the numbers that round to the magnitude
that it compares them with (`Grid.reads_iff`); and on the grid of seventeen digits, where the steps
are smaller than the distance of the two ends, it always comes to an end.
-/

namespace LoxLang

/-- A power with the negative part of its exponent on the other side. -/
theorem pow_toNat {base : ℚ} (hbase : base ≠ 0) (exponent : ℤ) :
    base ^ exponent.toNat = base ^ exponent * base ^ (-exponent).toNat := by
  have hsplit : (exponent.toNat : ℤ) = exponent + (-exponent).toNat := by omega
  rw [← zpow_natCast, hsplit, zpow_add₀ hbase, zpow_natCast]

/-- The number that a decimal is. -/
def Decimal.value (d : Decimal) : ℚ :=
  d.coefficient * 10 ^ d.exponent

namespace Grid

variable (g : Grid)

/-- The number at a point of a grid. -/
def number (point : Nat) : ℚ :=
  point * 10 ^ g.power

theorem down_pos : (0 : ℚ) < g.down := by
  have hdown : 0 < g.down := Nat.mul_pos (Nat.pow_pos Nat.two_pos) (Nat.pow_pos (by decide))
  exact_mod_cast hdown

/-- One quarter of the last binary place, in grid steps. -/
theorem up_eq : (g.up : ℚ) = 2 ^ g.magnitude.exponent / 4 * (10 ^ g.power)⁻¹ * g.down := by
  have htwo := pow_toNat (by norm_num : (2 : ℚ) ≠ 0) (g.magnitude.exponent - 2)
  have hten := pow_toNat (by norm_num : (10 : ℚ) ≠ 0) (-g.power)
  rw [neg_sub] at htwo
  rw [neg_neg] at hten
  have hquarter : (2 : ℚ) ^ (g.magnitude.exponent - 2) = 2 ^ g.magnitude.exponent / 4 := by
    rw [zpow_sub₀ (by norm_num)]
    norm_num
  have hup : (g.up : ℚ) = 2 ^ (g.magnitude.exponent - 2).toNat * 10 ^ (-g.power).toNat := by
    show ((2 ^ (g.magnitude.exponent - 2).toNat * 10 ^ (-g.power).toNat : Nat) : ℚ) = _
    push_cast
    rfl
  have hdown : (g.down : ℚ) = 2 ^ (2 - g.magnitude.exponent).toNat * 10 ^ g.power.toNat := by
    show ((2 ^ (2 - g.magnitude.exponent).toNat * 10 ^ g.power.toNat : Nat) : ℚ) = _
    push_cast
    rfl
  rw [hup, hdown, htwo, hten, hquarter, zpow_neg]
  ring

/-- Comparing whole numbers of quarters and of grid steps. -/
theorem mul_up_le_iff (quarters point : Nat) :
    quarters * g.up ≤ point * g.down ↔
      (quarters / 4 : ℚ) * 2 ^ g.magnitude.exponent ≤ g.number point := by
  have hten : (0 : ℚ) < 10 ^ g.power := zpow_pos (by norm_num) _
  rw [← Nat.cast_le (α := ℚ), number]
  push_cast
  rw [g.up_eq, ← mul_assoc, mul_le_mul_iff_of_pos_right g.down_pos, ← mul_assoc,
    mul_inv_le_iff₀ hten, div_mul_eq_mul_div, mul_div_assoc]

theorem mul_down_le_iff (quarters point : Nat) :
    point * g.down ≤ quarters * g.up ↔
      g.number point ≤ (quarters / 4 : ℚ) * 2 ^ g.magnitude.exponent := by
  have hten : (0 : ℚ) < 10 ^ g.power := zpow_pos (by norm_num) _
  rw [← Nat.cast_le (α := ℚ), number]
  push_cast
  rw [g.up_eq, ← mul_assoc, mul_le_mul_iff_of_pos_right g.down_pos, ← mul_assoc,
    le_mul_inv_iff₀ hten, div_mul_eq_mul_div, mul_div_assoc]

variable {g}

/-- What is compared in whole numbers are the ends of the numbers that round to the magnitude. -/
theorem reads_iff (hpos : 0 < g.magnitude.mantissa) (point : Nat) :
    g.reads point ↔ g.magnitude.Rounds (g.number point) := by
  have hlow : ((4 * g.magnitude.mantissa - if g.magnitude.tight then 1 else 2 : Nat) / 4 : ℚ) *
      2 ^ g.magnitude.exponent = g.magnitude.low := by
    rw [Magnitude.low]
    congr 1
    split
    · rw [Nat.cast_sub (by omega)]
      push_cast
      ring
    · rw [Nat.cast_sub (by omega)]
      push_cast
      ring
  have hhigh : ((4 * g.magnitude.mantissa + 2 : Nat) / 4 : ℚ) * 2 ^ g.magnitude.exponent =
      g.magnitude.high := by
    rw [Magnitude.high]
    congr 1
    push_cast
    ring
  have hle := g.mul_up_le_iff (4 * g.magnitude.mantissa - if g.magnitude.tight then 1 else 2) point
  have hge := g.mul_down_le_iff (4 * g.magnitude.mantissa - if g.magnitude.tight then 1 else 2)
    point
  have hle' := g.mul_up_le_iff (4 * g.magnitude.mantissa + 2) point
  have hge' := g.mul_down_le_iff (4 * g.magnitude.mantissa + 2) point
  rw [hlow] at hle hge
  rw [hhigh] at hle' hge'
  unfold reads Magnitude.Rounds
  dsimp only
  split
  · rw [decide_eq_true_iff, hle, hge']
  · rw [decide_eq_true_iff, ← not_le, ← not_le, hge, hle', not_le, not_le]

/-- The magnitude lies between two neighbouring points. -/
theorem number_floor_le (g : Grid) : g.number g.floor ≤ g.magnitude.value := by
  have hfloor : g.floor * g.down ≤ 4 * g.magnitude.mantissa * g.up := Nat.div_mul_le_self _ _
  have hle := (g.mul_down_le_iff _ _).1 hfloor
  push_cast at hle
  rwa [mul_div_cancel_left₀ _ (by norm_num : (4 : ℚ) ≠ 0)] at hle

theorem value_lt_number (g : Grid) : g.magnitude.value < g.number (g.floor + 1) := by
  have hdown : 0 < g.down := by exact_mod_cast g.down_pos
  have hfloor : ¬(g.floor + 1) * g.down ≤ 4 * g.magnitude.mantissa * g.up := by
    rw [Nat.not_le, Nat.mul_comm (g.floor + 1)]
    exact Nat.lt_mul_div_succ _ hdown
  rw [g.mul_down_le_iff, not_le] at hfloor
  push_cast at hfloor
  rw [mul_div_cancel_left₀ _ (by norm_num : (4 : ℚ) ≠ 0)] at hfloor
  exact_mod_cast hfloor

theorem number_succ (g : Grid) (point : Nat) :
    g.number (point + 1) = g.number point + 10 ^ g.power := by
  rw [number, number]
  push_cast
  ring

/-- A point that is found rounds to the magnitude. -/
theorem reads_of_pick? {tie : Tie} {point : Nat} (h : g.pick? tie = some point) :
    g.reads point := by
  unfold pick? at h
  dsimp only at h
  split at h
  · next hfloor hnext =>
      obtain rfl := Option.some.inj h
      unfold nearer
      dsimp only
      split
      · exact hfloor
      · split
        · exact hnext
        · cases tie with
          | up => exact hnext
          | even =>
              dsimp only
              split
              · exact hfloor
              · exact hnext
  · next hfloor _ =>
      obtain rfl := Option.some.inj h
      exact hfloor
  · next _ hnext =>
      obtain rfl := Option.some.inj h
      exact hnext
  · cases h

theorem reads_of_pick?_eq_none {tie : Tie} (h : g.pick? tie = none) :
    g.reads g.floor = false ∧ g.reads (g.floor + 1) = false := by
  unfold pick? at h
  dsimp only at h
  split at h
  · cases h
  · cases h
  · cases h
  · next hfloor hnext => exact ⟨hfloor, hnext⟩

/-- A grid whose steps are smaller than the distance of the two ends has a point between them. -/
theorem pick?_ne_none (hpos : 0 < g.magnitude.mantissa)
    (hstep : (10 : ℚ) ^ g.power < g.magnitude.high - g.magnitude.low) (tie : Tie) :
    g.pick? tie ≠ none := by
  intro hnone
  obtain ⟨hfloor, hnext⟩ := reads_of_pick?_eq_none hnone
  rw [← Bool.not_eq_true, reads_iff hpos] at hfloor hnext
  have hbelow := g.number_floor_le
  have habove := g.value_lt_number
  have hlow : g.number g.floor ≤ g.magnitude.low := by
    by_contra hlt
    exact hfloor (Magnitude.rounds_of_lt (not_le.1 hlt)
      (hbelow.trans_lt g.magnitude.value_lt_high))
  have hhigh : g.magnitude.high ≤ g.number (g.floor + 1) := by
    by_contra hlt
    exact hnext (Magnitude.rounds_of_lt (g.magnitude.low_lt_value.trans habove) (not_le.1 hlt))
  rw [number_succ] at hhigh
  linarith

end Grid

namespace Magnitude

variable {x : Magnitude}

/-! ## The order of magnitude -/

theorem value_mul (x : Magnitude) :
    x.value * (2 ^ (-x.exponent).toNat : Nat) = (x.mantissa * 2 ^ x.exponent.toNat : Nat) := by
  have htwo := pow_toNat (by norm_num : (2 : ℚ) ≠ 0) x.exponent
  rw [value]
  push_cast
  rw [htwo]
  ring

/-- A positive whole number is at least as great as its leading digit. -/
theorem pow_le_of_length_toDigits {n : Nat} (hn : 0 < n) :
    10 ^ ((Nat.toDigits 10 n).length - 1) ≤ n := by
  rcases Nat.eq_zero_or_pos ((Nat.toDigits 10 n).length - 1) with hone | hmore
  · rw [hone]
    exact hn
  · have hiff := Nat.length_toDigits_le_iff (n := n) (by decide : 1 < 10) hmore
    rw [← Nat.not_lt, ← hiff]
    omega

theorem lt_pow_length_toDigits (n : Nat) : n < 10 ^ (Nat.toDigits 10 n).length :=
  (Nat.length_toDigits_le_iff (by decide) Nat.length_toDigits_pos).1 (Nat.le_refl _)

/-- A magnitude is a quotient of whole numbers, and its order is told by their lengths. -/
theorem exists_quotient (hpos : 0 < x.mantissa) :
    ∃ numerator denominator : Nat, 0 < numerator ∧ 0 < denominator ∧
      x.value * denominator = numerator ∧
      ∃ guess : ℤ, guess = (Nat.toDigits 10 numerator).length -
          (Nat.toDigits 10 denominator).length ∧
        x.order = if denominator * 10 ^ guess.toNat ≤ numerator * 10 ^ (-guess).toNat then guess
          else guess - 1 :=
  ⟨x.mantissa * 2 ^ x.exponent.toNat, 2 ^ (-x.exponent).toNat,
    Nat.mul_pos hpos (Nat.pow_pos Nat.two_pos), Nat.pow_pos Nat.two_pos, x.value_mul, _, rfl, rfl⟩

/-- The comparison with a power of ten in whole numbers. -/
theorem mul_pow_toNat_le_iff (numerator denominator : Nat) (guess : ℤ) :
    denominator * 10 ^ guess.toNat ≤ numerator * 10 ^ (-guess).toNat ↔
      (denominator : ℚ) * 10 ^ guess ≤ numerator := by
  rw [← Nat.cast_le (α := ℚ)]
  push_cast
  rw [pow_toNat (by norm_num) guess, ← mul_assoc]
  exact mul_le_mul_iff_left₀ (by positivity)

/-- A magnitude is at least as great as its order says. -/
theorem pow_order_le (hpos : 0 < x.mantissa) : (10 : ℚ) ^ x.order ≤ x.value := by
  obtain ⟨numerator, denominator, hnum, hden, hvalue, guess, hguess, horder⟩ := exists_quotient hpos
  have hden' : (0 : ℚ) < denominator := by exact_mod_cast hden
  rw [horder]
  refine le_of_mul_le_mul_right ?_ hden'
  rw [hvalue]
  split
  · next hle => rwa [mul_pow_toNat_le_iff, mul_comm] at hle
  · -- One power of ten less is right for any two numbers with so many digits.
    have hnumber := pow_le_of_length_toDigits hnum
    have hless := (lt_pow_length_toDigits denominator).le
    have hlength := Nat.length_toDigits_pos (b := 10) (n := numerator)
    have hpower : guess - 1 = ((Nat.toDigits 10 numerator).length - 1 : Nat) -
        ((Nat.toDigits 10 denominator).length : ℤ) := by omega
    rw [hpower, zpow_sub₀ (by norm_num), zpow_natCast, zpow_natCast, div_mul_eq_mul_div,
      div_le_iff₀ (by positivity)]
    have hnumber' : (10 : ℚ) ^ ((Nat.toDigits 10 numerator).length - 1) ≤ numerator := by
      exact_mod_cast hnumber
    have hless' : (denominator : ℚ) ≤ 10 ^ (Nat.toDigits 10 denominator).length := by
      exact_mod_cast hless
    exact mul_le_mul hnumber' hless' hden'.le (by positivity)

/-- A magnitude is not as great as the next power of ten. -/
theorem lt_pow_order_add_one (hpos : 0 < x.mantissa) : x.value < (10 : ℚ) ^ (x.order + 1) := by
  obtain ⟨numerator, denominator, hnum, hden, hvalue, guess, hguess, horder⟩ := exists_quotient hpos
  have hden' : (0 : ℚ) < denominator := by exact_mod_cast hden
  rw [horder]
  refine lt_of_mul_lt_mul_right ?_ hden'.le
  rw [hvalue]
  split
  · have hnumber := lt_pow_length_toDigits numerator
    have hless := pow_le_of_length_toDigits hden
    have hlength := Nat.length_toDigits_pos (b := 10) (n := denominator)
    have hpower : guess + 1 = ((Nat.toDigits 10 numerator).length : ℤ) -
        ((Nat.toDigits 10 denominator).length - 1 : Nat) := by omega
    rw [hpower, zpow_sub₀ (by norm_num), zpow_natCast, zpow_natCast, div_mul_eq_mul_div,
      lt_div_iff₀ (by positivity)]
    have hnumber' : (numerator : ℚ) < 10 ^ (Nat.toDigits 10 numerator).length := by
      exact_mod_cast hnumber
    have hless' : (10 : ℚ) ^ ((Nat.toDigits 10 denominator).length - 1) ≤ denominator := by
      exact_mod_cast hless
    exact mul_lt_mul hnumber' hless' (by positivity) (by positivity)
  · next hgreater =>
      rw [mul_pow_toNat_le_iff, not_le] at hgreater
      rwa [sub_add_cancel, mul_comm]

/-! ## The search -/

/-- The steps of the grid of seventeen digits are smaller than the distance of the two ends. -/
theorem pow_order_lt_high_sub_low {bits : Nat} (hpos : 0 < (ofBits bits).mantissa) :
    (10 : ℚ) ^ ((ofBits bits).order - 16) < (ofBits bits).high - (ofBits bits).low := by
  have horder := pow_order_le hpos
  have hstep : (10 : ℚ) ^ ((ofBits bits).order - 16) * 10 ^ 16 ≤ (ofBits bits).value := by
    rwa [zpow_sub₀ (by norm_num), zpow_ofNat, div_mul_cancel₀ _ (by norm_num)]
  have hunit := pos_two_zpow (ofBits bits).exponent
  rw [value] at hstep
  rw [high, low]
  generalize (10 : ℚ) ^ ((ofBits bits).order - 16) = step at hstep ⊢
  generalize (2 : ℚ) ^ (ofBits bits).exponent = unit at hstep hunit ⊢
  split
  · next htight =>
      have hmantissa : ((ofBits bits).mantissa : ℚ) = 2 ^ 52 := by
        rw [mantissa_of_tight htight]
        norm_num
      rw [hmantissa] at hstep
      linarith
  · have hmantissa : ((ofBits bits).mantissa : ℚ) < 2 ^ 53 := by
      exact_mod_cast mantissa_ofBits_lt bits
    have hvalue := mul_lt_mul_of_pos_right hmantissa hunit
    linarith

/-- The search does not go beyond a grid that has a point. -/
theorem shortest_eq_of_pick? {places : Nat} {tie : Tie} (hplaces : places < 17)
    (h : (Grid.mk x (x.order - places)).pick? tie ≠ none) :
    ∃ (fewer point : Nat), fewer ≤ places ∧
      (Grid.mk x (x.order - fewer)).pick? tie = some point ∧
      x.shortest tie = ⟨point, x.order - fewer⟩ := by
  unfold shortest
  dsimp only
  obtain ⟨more, hmore⟩ := Nat.exists_eq_add_of_le (Nat.succ_le_of_lt hplaces)
  rw [hmore, List.range_add, List.findSome?_append]
  cases hsearch : (List.range (places + 1)).findSome? fun places : Nat =>
      ((Grid.mk x (x.order - places)).pick? tie).map fun point =>
        (⟨point, x.order - places⟩ : Decimal) with
  | some found =>
      obtain ⟨fewer, hfewer, heq⟩ := List.exists_of_findSome?_eq_some hsearch
      obtain ⟨point, hpoint, hfound⟩ := Option.map_eq_some_iff.1 heq
      exact ⟨fewer, point, Nat.lt_succ_iff.1 (List.mem_range.1 hfewer), hpoint, hfound.symm⟩
  | none =>
      have hnone := List.findSome?_eq_none_iff.1 hsearch places (List.self_mem_range_succ)
      exact absurd (Option.map_eq_none_iff.1 hnone) h

/-- The decimal that is found rounds to the magnitude. -/
theorem rounds_shortest {bits : Nat} (hpos : 0 < (ofBits bits).mantissa) (tie : Tie) :
    (ofBits bits).Rounds ((ofBits bits).shortest tie).value := by
  have hstep := pow_order_lt_high_sub_low hpos
  have hlast : (Grid.mk (ofBits bits) ((ofBits bits).order - (16 : Nat))).pick? tie ≠ none := by
    refine Grid.pick?_ne_none hpos ?_ tie
    exact hstep
  obtain ⟨places, point, -, hpoint, hshortest⟩ := shortest_eq_of_pick? (by decide) hlast
  rw [hshortest]
  exact (Grid.reads_iff hpos point).1 (Grid.reads_of_pick? hpoint)

theorem coefficient_shortest_ne_zero {bits : Nat} (hpos : 0 < bits) (tie : Tie) :
    ((ofBits bits).shortest tie).coefficient ≠ 0 := by
  intro hzero
  have hrounds := rounds_shortest (mantissa_ofBits_pos hpos) tie
  rw [Decimal.value, hzero, Nat.cast_zero, zero_mul] at hrounds
  exact hpos.ne' (hrounds.eq rounds_zero)

/-- The number of a magnitude that has no fraction. -/
theorem value_of_whole? {n : Nat} (h : x.whole? = some n) : x.value = n := by
  have hvalue := x.value_mul
  unfold whole? at h
  dsimp only at h
  split at h
  · next hmod =>
      have hdvd := Nat.div_mul_cancel (Nat.dvd_of_mod_eq_zero hmod)
      rw [Option.some.inj h] at hdvd
      have hden : (0 : ℚ) < (2 ^ (-x.exponent).toNat : Nat) := by
        exact_mod_cast Nat.pow_pos Nat.two_pos
      refine mul_right_cancel₀ hden.ne' (hvalue.trans ?_)
      exact_mod_cast hdvd.symm
  · cases h

end Magnitude

end LoxLang
