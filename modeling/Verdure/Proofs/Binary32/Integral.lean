/-
  Verdure.Proofs.Binary32.Integral

  Numbers that arithmetic meets without rounding.

  A rational whose significand has at most 24 bits is a binary32 number, and an operation
  with such a result gives exactly that (`value_eq_of_rounded`).  So integers of that size
  convert without loss, and the integer below a number is found exactly (`value_floor`).
  What is left of a number above that integer may still be rounded, but not out of the
  closed unit interval (`sub_floor_mem_unit`).
-/
import Verdure.Proofs.Binary32.Quotient

namespace Verdure.Binary32

open Float.Model (Format UnpackedFloat)
open Float.Model.UnpackedFloat

/-! ## Short significands -/

/-- A short significand is kept by rounding. -/
theorem valueAt_magnitude {m : ℕ} (hm : 0 < m) (h_lt : m < 2 ^ 24) {e : ℤ} (h_exp : -149 ≤ e) :
    valueAt (magnitude (m * 2 ^ e)) = m * 2 ^ e := by
  have h_pos : (0 : ℚ) < m * 2 ^ e := by positivity
  have h_log := (Nat.log2_lt hm.ne').mpr h_lt
  have h_unit : unitExponent (m * 2 ^ e) ≤ e := by
    rw [unitExponent, log_mul_zpow hm]
    omega
  have h_least := neg_le_unitExponent (m * 2 ^ e)
  have h_upper := div_unitExponent_lt h_pos
  have h_lower := le_div_unitExponent h_pos
  generalize unitExponent (m * 2 ^ e) = u at *
  -- The significand is padded up to the exponent of the last place.
  obtain ⟨k, rfl⟩ : ∃ k : ℕ, e = u + k := ⟨(e - u).toNat, by omega⟩
  have h_padded : (m : ℚ) * 2 ^ (u + k) = (m * 2 ^ k : ℕ) * 2 ^ u := by
    rw [zpow_add₀ (by norm_num), zpow_natCast]
    push_cast
    ring
  rw [h_padded, mul_div_assoc, div_self (by positivity), mul_one] at h_upper h_lower
  have h_short : m * 2 ^ k < 2 ^ 24 := by exact_mod_cast h_upper
  have h_normal : 2 ^ 23 ≤ m * 2 ^ k ∨ u = -149 := by
    rcases h_least.eq_or_lt with h | h
    · exact .inr h.symm
    · exact .inl (by exact_mod_cast h_lower h)
  have h_placed := Placed.finite (s := .positive) (m * 2 ^ k) u (by positivity) h_short h_least
    h_normal
  rw [h_padded, magnitude_canonical (by positivity) h_short h_least h_normal]
  have h_value := h_placed.value_eq
  rw [Sign.apply, Int.cast_one, one_mul] at h_value
  rw [← h_value]
  show ((Sign.positive.apply (m * 2 ^ k : ℕ) : ℤ) : ℚ) * 2 ^ u = _
  rw [Sign.apply, Int.cast_natCast]

theorem value_nonneg_iff {x : Float32} (hx : |ordinal x| < top) :
    0 ≤ value x ↔ 0 ≤ ordinal x := by
  rw [← value_zero, value_le_value_iff (by decide) hx, ordinal_zero]

theorem value_nonpos_iff {x : Float32} (hx : |ordinal x| < top) :
    value x ≤ 0 ↔ ordinal x ≤ 0 := by
  rw [← value_zero, value_le_value_iff hx (by decide), ordinal_zero]

/-- A finite number that a short significand is rounded to has its value. -/
theorem value_eq_of_rounded {x : Float32} {k e : ℤ} (h_lt : |k| < 2 ^ 24) (h_exp : -149 ≤ e)
    (hx : |ordinal x| < top) (h : ordinal x = rounded (k * 2 ^ e)) : value x = k * 2 ^ e := by
  rw [Int.abs_eq_natAbs] at h_lt
  have h_abs : |value x| = |(k : ℚ) * 2 ^ e| := by
    have h_magnitude : |(k : ℚ) * 2 ^ e| = (k.natAbs : ℕ) * 2 ^ e := by
      rw [abs_mul, abs_of_pos (by positivity : (0 : ℚ) < 2 ^ e), Nat.cast_natAbs, Int.cast_abs]
    rw [abs_value hx, h, ← rounded_abs, h_magnitude]
    rw [h, ← rounded_abs, h_magnitude] at hx
    rcases k.natAbs.eq_zero_or_pos with h_zero | h_pos
    · rw [h_zero, Nat.cast_zero, zero_mul, rounded_zero, valueAt_zero]
    · rw [rounded_of_pos (by positivity)] at hx ⊢
      rw [min_eq_right (by omega)]
      exact valueAt_magnitude h_pos (by omega) h_exp
  -- Rounding keeps the side of zero.
  rcases le_total 0 ((k : ℚ) * 2 ^ e) with h_side | h_side
  · have h_nonneg := (value_nonneg_iff hx).mpr (h ▸ rounded_nonneg h_side)
    rwa [abs_of_nonneg h_nonneg, abs_of_nonneg h_side] at h_abs
  · have h_mirror := rounded_nonneg (neg_nonneg.mpr h_side)
    rw [rounded_neg, ← h] at h_mirror
    have h_nonpos := (value_nonpos_iff hx).mpr (neg_nonneg.mp h_mirror)
    rw [abs_of_nonpos h_nonpos, abs_of_nonpos h_side] at h_abs
    exact neg_inj.mp h_abs

/-- Rounding does not leave the interval that a finite number and its opposite bound. -/
theorem abs_rounded_le_of_le {v : ℚ} {y : Float32} (hy : |ordinal y| < top)
    (h : |v| ≤ value y) : |rounded v| ≤ ordinal y := by
  rw [← rounded_abs, ← rounded_value hy]
  exact rounded_mono h

/-- Rounding does not leave the range of the finite numbers. -/
theorem abs_rounded_lt_of_le {v : ℚ} {y : Float32} (hy : |ordinal y| < top)
    (h : |v| ≤ value y) : |rounded v| < top :=
  (abs_rounded_le_of_le hy h).trans_lt ((le_abs_self _).trans_lt hy)

/-! ## Words -/

theorem value_16777216 : value 16777216.0 = 16777216 := by
  show ((8388608 : ℤ) : ℚ) * 2 ^ (1 : ℤ) = 16777216
  norm_num

/-- Words of at most 24 bits are kept by conversion. -/
theorem value_toFloat32 {n : UInt64} (h : n.toNat < 2 ^ 24) :
    |ordinal n.toFloat32| < top ∧ value n.toFloat32 = n.toNat := by
  obtain ⟨s, h_rounds⟩ := rounds_normalize n.toNat 0 .positive
  have h_ordinal : ordinal n.toFloat32 = rounded ((n.toNat : ℤ) * 2 ^ (0 : ℤ)) :=
    ordinal_pack h_rounds
  have h_finite : |ordinal n.toFloat32| < top := by
    rw [h_ordinal]
    refine abs_rounded_lt_of_le (y := 16777216.0) (by decide) ?_
    rw [zpow_zero, mul_one, Int.cast_natCast, Nat.abs_cast, value_16777216]
    exact_mod_cast h.le
  have h_value := value_eq_of_rounded (by rw [Nat.abs_cast]; omega) (by norm_num) h_finite h_ordinal
  rw [zpow_zero, mul_one, Int.cast_natCast] at h_value
  exact ⟨h_finite, h_value⟩

/-! ## Integers -/

/-- Natural numbers of up to 23 bits are written as a word times one. -/
theorem ofNat_eq {n : ℕ} (h : n < 2 ^ 23) : Float32.ofNat n = n.toUInt64.toFloat32 * 1.0 := by
  show Float32.ofScientific n false 0 = _
  unfold Float32.ofScientific
  rw [dif_pos ⟨h, by decide⟩]
  rfl

theorem value_ofNat_8388608 : value (Float32.ofNat (2 ^ 23)) = (2 ^ 23 : ℕ) := by
  show ((8388608 : ℤ) : ℚ) * 2 ^ (0 : ℤ) = _
  norm_num

theorem ordinal_ofNat {n : ℕ} (h : n ≤ 2 ^ 23) :
    |ordinal (Float32.ofNat n)| < top ∧ ordinal (Float32.ofNat n) = rounded n := by
  rcases h.lt_or_eq with h_lt | rfl
  · have h_nat : n.toUInt64.toNat = n := by
      rw [UInt64.toNat_ofNat']
      omega
    obtain ⟨h_finite, h_value⟩ := value_toFloat32 (n := n.toUInt64) (by omega)
    have h_ordinal : ordinal (Float32.ofNat n) = rounded n := by
      rw [ofNat_eq h_lt, ordinal_mul h_finite abs_ordinal_one_lt, h_value, value_one, mul_one,
        h_nat]
    refine ⟨?_, h_ordinal⟩
    rw [h_ordinal]
    refine abs_rounded_lt_of_le (y := 16777216.0) (by decide) ?_
    rw [Nat.abs_cast, value_16777216]
    exact_mod_cast h.trans (by norm_num)
  · -- The one natural number with 24 bits that is needed.
    have h_finite : |ordinal (Float32.ofNat (2 ^ 23))| < top := by decide
    refine ⟨h_finite, ?_⟩
    rw [← rounded_value h_finite]
    exact congrArg rounded value_ofNat_8388608

/-- Integers between `-2 ^ 23` and `2 ^ 23` are kept by conversion. -/
theorem value_ofInt {k : ℤ} (h : |k| ≤ 2 ^ 23) :
    |ordinal (Float32.ofInt k)| < top ∧ value (Float32.ofInt k) = k := by
  have h_ordinal : |ordinal (Float32.ofInt k)| < top ∧ ordinal (Float32.ofInt k) = rounded k := by
    cases k with
    | ofNat n =>
        rw [Int.ofNat_eq_natCast, Nat.abs_cast] at h
        exact ordinal_ofNat (n := n) (by omega)
    | negSucc n =>
        rw [Int.abs_eq_natAbs, Int.natAbs_negSucc] at h
        obtain ⟨h_finite, h_eq⟩ := ordinal_ofNat (n := n + 1) (by omega)
        have h_neg : ordinal (Float32.ofInt (.negSucc n)) = -ordinal (Float32.ofNat (n + 1)) :=
          ordinal_neg h_finite
        rw [h_neg, abs_neg, h_eq, Int.cast_negSucc, rounded_neg]
        exact ⟨h_eq ▸ h_finite, rfl⟩
  obtain ⟨h_finite, h_eq⟩ := h_ordinal
  refine ⟨h_finite, ?_⟩
  have h_value := value_eq_of_rounded (k := k) (e := 0) (by omega) (by norm_num) h_finite
    (by rwa [zpow_zero, mul_one])
  rwa [zpow_zero, mul_one] at h_value

/-! ## Rounding down -/

theorem floorDyadic_eq (m e : ℤ) : floorDyadic m e = ⌊(m : ℚ) * 2 ^ e⌋ := by
  unfold floorDyadic
  split
  next h =>
    obtain ⟨k, rfl⟩ := Int.eq_ofNat_of_zero_le h
    rw [Int.toNat_natCast, zpow_natCast, Int.shiftLeft_eq]
    exact_mod_cast (Int.floor_intCast (m * 2 ^ k)).symm
  next h =>
    obtain ⟨k, rfl⟩ : ∃ k : ℕ, e = -k := ⟨(-e).toNat, by omega⟩
    rw [neg_neg, Int.toNat_natCast, zpow_neg, zpow_natCast, Int.shiftRight_eq_div_pow,
      ← div_eq_mul_inv]
    have h_floor := Rat.floor_intCast_div_natCast m (2 ^ k)
    push_cast at h_floor ⊢
    exact h_floor.symm

/-- The integer below a number is found exactly. -/
theorem value_floor {x : Float32} (hx : |ordinal x| < top) :
    |ordinal (floor x)| < top ∧ value (floor x) = ⌊value x⌋ := by
  obtain ⟨s, n, h_placed, -, -⟩ := exists_placed hx
  have h_value : value x = unpackedValue x.toModel.unpack := rfl
  unfold floor
  generalize x.toModel.unpack = f at *
  cases h_placed with
  | zero =>
      have h_zero : value x = 0 := h_value
      refine ⟨hx, ?_⟩
      show value x = _
      rw [h_zero, Int.floor_zero, Int.cast_zero]
  | finite m e hm h_m h_exp h_normal =>
      have h_exact : value x = (s.apply m : ℤ) * 2 ^ e := h_value
      show |ordinal (if 0 ≤ e then x else _)| < top ∧ value (if 0 ≤ e then x else _) = _
      split
      next h =>
        -- Without binary places a number is an integer.
        obtain ⟨k, rfl⟩ := Int.eq_ofNat_of_zero_le h
        have h_integer : value x = ((s.apply m * 2 ^ k : ℤ) : ℚ) := by
          rw [h_exact, zpow_natCast]
          push_cast
          rfl
        rw [h_integer, Int.floor_intCast]
        exact ⟨hx, rfl⟩
      next h =>
        rw [floorDyadic_eq, ← h_exact]
        refine value_ofInt ?_
        have h_half : (2 : ℚ) ^ e ≤ 2 ^ (-1 : ℤ) := zpow_le_zpow_right₀ (by norm_num) (by omega)
        have h_bound : |value x| ≤ 2 ^ 23 := by
          have h_short : (m : ℚ) ≤ 2 ^ 24 := by exact_mod_cast h_m.le
          rw [h_exact, abs_mul, ← Int.cast_abs, abs_apply, Nat.abs_cast, Int.cast_natCast,
            abs_of_pos (by positivity : (0 : ℚ) < 2 ^ e)]
          calc (m : ℚ) * 2 ^ e ≤ 2 ^ 24 * 2 ^ (-1 : ℤ) := by gcongr
            _ = 2 ^ 23 := by norm_num
        obtain ⟨h_low, h_high⟩ := abs_le.mp h_bound
        refine abs_le.mpr ⟨Int.le_floor.mpr (by exact_mod_cast h_low), ?_⟩
        exact_mod_cast (Int.floor_le (value x)).trans h_high

/-- What is left of a number above the integer below it is in the closed unit interval.  It is
    one where a number below zero is too near to zero for the difference to be told from one. -/
theorem sub_floor_mem_unit {x : Float32} (hx : |ordinal x| < top) :
    |ordinal (x - floor x)| < top ∧ 0 ≤ value (x - floor x) ∧ value (x - floor x) ≤ 1 := by
  obtain ⟨h_floor, h_value⟩ := value_floor hx
  have h_ordinal : ordinal (x - floor x) = rounded (Int.fract (value x)) := by
    rw [ordinal_sub hx h_floor, h_value, Int.self_sub_floor]
  have h_nonneg := Int.fract_nonneg (value x)
  have h_finite : |ordinal (x - floor x)| < top := by
    rw [h_ordinal]
    refine abs_rounded_lt_of_le abs_ordinal_one_lt ?_
    rw [abs_of_nonneg h_nonneg, value_one]
    exact (Int.fract_lt_one _).le
  refine ⟨h_finite, (value_nonneg_iff h_finite).mpr ?_, ?_⟩
  · rw [h_ordinal]
    exact rounded_nonneg h_nonneg
  · rw [← value_one, value_le_value_iff h_finite abs_ordinal_one_lt, h_ordinal,
      ← rounded_value abs_ordinal_one_lt, value_one]
    exact rounded_mono (Int.fract_lt_one _).le

/-- The fraction of a tiny negative number is rounded up to one. -/
example : Float32.ofBits 0xb0800000 - floor (Float32.ofBits 0xb0800000) = 1.0 := by decide

end Verdure.Binary32
