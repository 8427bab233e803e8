import LoxLang.Proofs.Decimal.Numeral
import LoxLang.Proofs.Decimal.Reading

/-!
# Whole numbers have all their digits

The shortest decimal of a whole number of at most fifty-three places is the number itself
(`Magnitude.exists_shortest_eq`): no whole number but this one rounds to it, and the search comes to
the grid of the whole numbers before it comes to finer ones.  So a layout without an exponent writes
all its digits (`Layout.text_whole`).
-/

namespace LoxLang

namespace Magnitude

variable {bits n : Nat}

/-- No other whole number rounds to a whole number of at most fifty-three places. -/
theorem Rounds.eq_whole {other : Nat} (h : (ofBits bits).Rounds other)
    (hvalue : (ofBits bits).value = n) (hpos : 0 < n) (hlt : n + 1 < 2 ^ 53) : other = n := by
  have hn : (ofBits bits).Rounds n := hvalue ▸ rounds_value _
  have hbits : 0 < bits := by
    refine Nat.pos_of_ne_zero ?_
    rintro rfl
    have hzero : (ofBits 0).value = 0 := mul_eq_zero_of_left Nat.cast_zero _
    rw [hzero] at hvalue
    exact hpos.ne (by exact_mod_cast hvalue)
  rcases Nat.lt_trichotomy other n with hless | heq | hmore
  · rcases Nat.eq_zero_or_pos other with rfl | hother
    · rw [Nat.cast_zero] at h
      exact absurd (h.eq rounds_zero) hbits.ne'
    · obtain ⟨bits', -, -, hvalue'⟩ := exists_value_eq hother (by omega)
      obtain rfl := h.eq (hvalue' ▸ rounds_value _)
      exact_mod_cast hvalue'.symm.trans hvalue
  · exact heq
  · obtain ⟨bits', -, -, hvalue'⟩ := exists_value_eq (Nat.succ_pos n) hlt
    have hnext : (ofBits bits').Rounds (n + 1 : Nat) := hvalue' ▸ rounds_value _
    have hle := hnext.mono h (by exact_mod_cast hmore)
    have hge := hn.mono hnext (by exact_mod_cast Nat.le_succ n)
    obtain rfl := Nat.le_antisymm hge hle
    have hsame : (n + 1 : Nat) = n := by exact_mod_cast hvalue'.symm.trans hvalue
    omega

/-- The grid of the whole numbers has a point that is a whole number. -/
theorem pick?_whole {x : Magnitude} (hpos : 0 < x.mantissa) (hvalue : x.value = n) (tie : Tie) :
    (Grid.mk x 0).pick? tie ≠ none := by
  intro hnone
  have hnumber (point : Nat) : (Grid.mk x 0).number point = point := by
    rw [Grid.number, zpow_zero, mul_one]
  have hbelow := (Grid.mk x 0).number_floor_le
  have habove := (Grid.mk x 0).value_lt_number
  obtain ⟨hfloor, -⟩ := Grid.reads_of_pick?_eq_none hnone
  generalize (Grid.mk x 0).floor = floor at hbelow habove hfloor
  rw [hnumber, hvalue] at hbelow habove
  obtain rfl : floor = n :=
    Nat.le_antisymm (by exact_mod_cast hbelow) (Nat.lt_succ_iff.1 (by exact_mod_cast habove))
  have hreads := (Grid.reads_iff (g := ⟨x, 0⟩) hpos floor).2 (by
    rw [hnumber, ← hvalue]
    exact rounds_value x)
  rw [hfloor] at hreads
  cases hreads

/-- The shortest decimal of a whole number is the number itself, perhaps with zeros left out. -/
theorem exists_shortest_eq (hvalue : (ofBits bits).value = n) (hpos : 0 < n) (hlt : n + 1 < 2 ^ 53)
    (tie : Tie) :
    ∃ point zeros : Nat, (ofBits bits).shortest tie = ⟨point, zeros⟩ ∧ point * 10 ^ zeros = n := by
  have hmantissa : 0 < (ofBits bits).mantissa := by
    refine Nat.pos_of_ne_zero fun hzero => hpos.ne ?_
    rw [value, hzero, Nat.cast_zero, zero_mul] at hvalue
    exact_mod_cast hvalue
  have hle := pow_order_le hmantissa
  have hgreater := lt_pow_order_add_one hmantissa
  rw [hvalue] at hle hgreater
  have horder : 0 ≤ (ofBits bits).order ∧ (ofBits bits).order < 17 := by
    constructor
    · have hone : (10 : ℚ) ^ (0 : ℤ) < 10 ^ ((ofBits bits).order + 1) := by
        rw [zpow_zero]
        exact (by exact_mod_cast hpos : (1 : ℚ) ≤ n).trans_lt hgreater
      have := (zpow_lt_zpow_iff_right₀ (by norm_num : (1 : ℚ) < 10)).1 hone
      omega
    · have hmany : (10 : ℚ) ^ (ofBits bits).order < 10 ^ (17 : ℤ) := by
        have hreal : (n : ℚ) < 2 ^ 53 := by exact_mod_cast (Nat.lt_succ_self n).trans hlt
        exact hle.trans_lt (hreal.trans (by norm_num))
      exact (zpow_lt_zpow_iff_right₀ (by norm_num : (1 : ℚ) < 10)).1 hmany
  obtain ⟨places, hplaces⟩ := Int.eq_ofNat_of_zero_le horder.1
  have hgrid : (Grid.mk (ofBits bits) ((ofBits bits).order - places)).pick? tie ≠ none := by
    have hzero : (ofBits bits).order - places = 0 := by omega
    rw [hzero]
    exact pick?_whole hmantissa hvalue tie
  obtain ⟨fewer, point, hfewer, hpoint, hshortest⟩ := shortest_eq_of_pick? (by omega) hgrid
  have hpower : (ofBits bits).order - fewer = (places - fewer : Nat) := by omega
  rw [hpower] at hpoint hshortest
  refine ⟨point, places - fewer, hshortest, ?_⟩
  have hrounds := (Grid.reads_iff hmantissa point).1 (Grid.reads_of_pick? hpoint)
  rw [Grid.number, zpow_natCast] at hrounds
  exact Rounds.eq_whole (by exact_mod_cast hrounds) hvalue hpos hlt

end Magnitude

/-! ## The digits of a whole number -/

theorem toDigits_mul_pow {n : Nat} (hpos : 0 < n) (zeros : Nat) :
    Nat.toDigits 10 (n * 10 ^ zeros) = Nat.toDigits 10 n ++ List.replicate zeros '0' := by
  induction zeros with
  | zero => rw [pow_zero, Nat.mul_one, List.replicate_zero, List.append_nil]
  | succ zeros ih =>
      have hmore := Nat.toDigits_append_toDigits (b := 10) (n := n * 10 ^ zeros) (d := 0)
        (by decide) (Nat.mul_pos hpos (Nat.pow_pos (by decide))) (by decide)
      rw [ih, Nat.toDigits_zero, Nat.add_zero] at hmore
      rw [pow_succ', Nat.mul_left_comm, ← hmore, List.append_assoc, List.replicate_succ']

namespace Layout

/-- The significant digits of a whole number, with zeros up to the point, are all its digits. -/
theorem places_whole {point zeros : Nat} (hpos : 0 < point) :
    places (Decimal.significant ⟨point, zeros⟩) (Decimal.order ⟨point, zeros⟩) =
      (Nat.toDigits 10 (point * 10 ^ zeros), []) := by
  obtain ⟨idle, hidle⟩ := Decimal.exists_toDigits_eq ⟨point, zeros⟩
  dsimp only at hidle
  have hlength := congrArg List.length hidle
  rw [List.length_append, List.length_replicate] at hlength
  have hsome := Nat.length_toDigits_pos (b := 10) (n := point)
  have horder : Decimal.order ⟨point, zeros⟩ =
      Int.ofNat (zeros + (Nat.toDigits 10 point).length - 1) := by
    rw [Decimal.order, if_neg hpos.ne', Int.ofNat_eq_natCast]
    dsimp only
    omega
  have hall : (Decimal.significant ⟨point, zeros⟩).length ≤
      zeros + (Nat.toDigits 10 point).length - 1 + 1 := by omega
  have hzeros : zeros + (Nat.toDigits 10 point).length - 1 + 1 -
      (Decimal.significant ⟨point, zeros⟩).length = idle + zeros := by omega
  rw [horder, places, List.take_of_length_le hall, List.drop_eq_nil_of_le hall, hzeros,
    toDigits_mul_pow hpos, hidle, List.append_assoc, List.replicate_append_replicate]

end Layout

end LoxLang
