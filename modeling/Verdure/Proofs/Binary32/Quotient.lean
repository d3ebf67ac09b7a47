/-
  Verdure.Proofs.Binary32.Quotient

  Quotients of binary32 numbers.

  Division pads the first significand until the integer quotient is long enough for rounding,
  and tells by the remainder how far the exact quotient is from it.  The integer quotient and
  the remainder together stand for the exact quotient (`standsFor_div`), so that a quotient of
  finite numbers is the number that the exact quotient is rounded to.
-/
import Verdure.Proofs.Binary32.Arithmetic

namespace Verdure.Binary32

open Float.Model (Format UnpackedFloat totalExponent)
open Float.Model.UnpackedFloat

/-! ## Unpacked numbers -/

/-- The integer quotient of two significands, with what the remainder tells. -/
theorem standsFor_div (n : ℕ) {d : ℕ} (hd : 0 < d) :
    StandsFor (ExtendedMantissa.ofMantissaAndAccuracy (n / d) (accuracyOfFraction (n % d) d))
      ((n : ℚ) / d) := by
  have h_d : (0 : ℚ) < d := by exact_mod_cast hd
  have h_floor : ((n / d : ℕ) : ℤ) = ⌊(n : ℚ) / d⌋ := by
    exact_mod_cast (Rat.floor_natCast_div_natCast n d).symm
  have h_fract : Int.fract ((n : ℚ) / d) = (n % d : ℕ) / d :=
    Int.fract_div_natCast_eq_div_natCast_mod
  unfold accuracyOfFraction
  split
  next h_exact =>
    rw [h_exact, Nat.cast_zero, zero_div] at h_fract
    refine ⟨h_floor, iff_of_false Bool.false_ne_true ?_, iff_of_false Bool.false_ne_true ?_⟩
    · rw [h_fract]
      norm_num
    · exact fun h => h.1 h_fract
  next h_inexact =>
    have h_ne : Int.fract ((n : ℚ) / d) ≠ 0 := by
      rw [h_fract]
      exact div_ne_zero (by exact_mod_cast h_inexact) h_d.ne'
    -- Twice the remainder is on the side of the divisor that the fraction is of one half.
    rcases lt_trichotomy (2 * (n % d)) d with h_lt | h_eq | h_gt
    · have h_half : Int.fract ((n : ℚ) / d) < 1 / 2 := by
        rw [h_fract, div_lt_div_iff₀ h_d two_pos, mul_comm, one_mul]
        exact_mod_cast h_lt
      rw [compare_lt_iff_lt.mpr h_lt]
      exact ⟨h_floor, iff_of_false Bool.false_ne_true h_half.not_ge,
        iff_of_true rfl ⟨h_ne, h_half.ne⟩⟩
    · have h_half : Int.fract ((n : ℚ) / d) = 1 / 2 := by
        rw [h_fract, div_eq_div_iff h_d.ne' two_ne_zero, mul_comm, one_mul]
        exact_mod_cast h_eq
      rw [compare_eq_iff_eq.mpr h_eq]
      exact ⟨h_floor, iff_of_true rfl h_half.ge,
        iff_of_false Bool.false_ne_true fun h => h.2 h_half⟩
    · have h_half : 1 / 2 < Int.fract ((n : ℚ) / d) := by
        rw [h_fract, div_lt_div_iff₀ two_pos h_d, mul_comm _ (2 : ℚ), one_mul]
        exact_mod_cast h_gt
      rw [compare_gt_iff_gt.mpr h_gt]
      exact ⟨h_floor, iff_of_true rfl h_half.le, iff_of_true rfl ⟨h_ne, h_half.ne'⟩⟩

/-- The quotient of two positive numbers is at most one binary place shorter than the
    difference of their lengths. -/
theorem targetExponent_sub_le {m m' : ℕ} (hm : 0 < m) (hm' : 0 < m') (e e' : ℤ) :
    Format.binary32.targetExponent (totalExponent m e - totalExponent m' e')
      ≤ unitExponent (m * 2 ^ e / (m' * 2 ^ e')) := by
  have h_log : (m.log2 + e : ℤ) - (m'.log2 + e') - 1
      ≤ Int.log 2 ((m : ℚ) * 2 ^ e / (m' * 2 ^ e')) := by
    rw [← Int.zpow_le_iff_le_log (by norm_num) (by positivity), le_div_iff₀ (by positivity)]
    have h_le : (2 : ℚ) ^ (m.log2 : ℤ) ≤ m := by
      exact_mod_cast Nat.log2_self_le hm.ne'
    have h_lt : (m' : ℚ) ≤ 2 ^ ((m'.log2 : ℤ) + 1) := by
      exact_mod_cast (Nat.lt_log2_self (n := m')).le
    calc ((2 : ℕ) : ℚ) ^ ((m.log2 + e : ℤ) - (m'.log2 + e') - 1) * (m' * 2 ^ e')
        ≤ 2 ^ ((m.log2 + e : ℤ) - (m'.log2 + e') - 1) * (2 ^ ((m'.log2 : ℤ) + 1) * 2 ^ e') := by
          rw [Nat.cast_ofNat]
          gcongr
      _ = 2 ^ (m.log2 : ℤ) * 2 ^ e := by
          rw [← zpow_add₀ two_ne_zero, ← zpow_add₀ two_ne_zero, ← zpow_add₀ two_ne_zero]
          congr 1
          ring
      _ ≤ m * 2 ^ e := by gcongr
  show max ((m.log2 + 1 + e : ℤ) - (m'.log2 + 1 + e') - (1 + 23 : ℕ))
    (3 - 2 ^ 7 - (1 + 23 : ℕ)) ≤ _
  unfold unitExponent
  omega

theorem apply_div_cast (s t : Sign) :
    (((s / t).apply 1 : ℤ) : ℚ) = (s.apply 1 : ℤ) / (t.apply 1 : ℤ) := by
  cases s <;> cases t <;> simp [Sign.apply] <;> rfl

theorem Placed.rounds_div {s t : Sign} {n k : ℤ} {f g : UnpackedFloat} (hf : Placed s n f)
    (hg : Placed t k g) (hk : k ≠ 0) :
    Rounds (s / t) (unpackedValue f / unpackedValue g) (div Format.binary32 f g) := by
  cases hg with
  | zero => exact absurd rfl hk
  | finite m' e' hm' =>
      cases hf with
      | zero =>
          show Rounds (s / t) (0 / _) (.zero (s / t))
          rw [zero_div]
          exact rounds_zero _
      | finite m e hm =>
          -- The exponent that the integer quotient is taken at.
          generalize h_target : min (e - e')
            (Format.binary32.targetExponent (totalExponent m e - totalExponent m' e')) = x
          have h_value : ((m <<< (e - e' - x).toNat : ℕ) : ℚ) / m' * 2 ^ x
              = m * 2 ^ e / (m' * 2 ^ e') := by
            obtain ⟨j, hj⟩ : ∃ j : ℕ, e - e' = x + j := ⟨(e - e' - x).toNat, by omega⟩
            have h_amount : (e - e' - x).toNat = j := by omega
            rw [h_amount, Nat.shiftLeft_eq, show e = x + j + e' by omega, zpow_add₀ two_ne_zero,
              zpow_add₀ two_ne_zero, zpow_natCast]
            push_cast
            field_simp
          have h_long : x ≤ unitExponent ((m <<< (e - e' - x).toNat : ℕ) / m' * 2 ^ x) := by
            rw [h_value]
            exact (h_target ▸ min_le_right _ _).trans (targetExponent_sub_le hm hm' e e')
          have h_pos : (0 : ℚ) < (m <<< (e - e' - x).toNat : ℕ) / m' := by
            rw [Nat.shiftLeft_eq]
            positivity
          have h_placed := placed_roundWithAccuracy_of_standsFor (s / t) h_pos
            (standsFor_div _ hm') h_long
          have h_rounds := h_placed.rounds_of_magnitude (by positivity)
          have h_exact : (((s / t).apply 1 : ℤ) : ℚ) * (m * 2 ^ e / (m' * 2 ^ e'))
              = (s.apply m : ℤ) * 2 ^ e / ((t.apply m' : ℤ) * 2 ^ e') := by
            rw [apply_div_cast, apply_cast s m, apply_cast t m', div_mul_div_comm,
              Int.cast_natCast, Int.cast_natCast, mul_assoc, mul_assoc]
          rw [h_value, h_exact] at h_rounds
          subst h_target
          exact h_rounds

/-! ## Numbers -/

theorem ordinal_div {x y : Float32} (hx : |ordinal x| < top) (hy : |ordinal y| < top)
    (h_ne : ordinal y ≠ 0) : ordinal (x / y) = rounded (value x / value y) := by
  obtain ⟨s, n, h_x, _⟩ := exists_placed hx
  obtain ⟨t, k, h_y, _, h_ordinal⟩ := exists_placed hy
  have hk : k ≠ 0 := by
    rintro rfl
    apply h_ne
    rw [h_ordinal]
    cases t <;> rfl
  exact ordinal_pack (h_x.rounds_div h_y hk)

theorem abs_ordinal_div_le {x y : Float32} (hx : |ordinal x| < top) (hy : |ordinal y| < top)
    (h_ne : ordinal y ≠ 0) : |ordinal (x / y)| ≤ top := by
  rw [ordinal_div hx hy h_ne]
  exact abs_rounded_le _

theorem abs_ordinal_one_lt : |ordinal 1.0| < top := by decide

theorem abs_ordinal_lt_of_mem_unit {x : Float32} (h_nonneg : 0.0 ≤ x) (h_le : x ≤ 1.0) :
    |ordinal x| < top := by
  have hx := (abs_ordinal_le_of_le h_le).1
  rw [le_iff_ordinal abs_ordinal_zero_le hx, ordinal_zero] at h_nonneg
  rw [le_iff_ordinal hx abs_ordinal_one_lt.le] at h_le
  rw [abs_of_nonneg h_nonneg]
  exact h_le.trans_lt ((le_abs_self _).trans_lt abs_ordinal_one_lt)

theorem value_zero : value 0.0 = 0 := rfl

theorem value_one : value 1.0 = 1 := by
  show ((8388608 : ℤ) : ℚ) * 2 ^ (-23 : ℤ) = 1
  norm_num

/-- The quotient of a number by one that is not smaller, both on the same side of zero, is in
    the unit interval. -/
theorem div_mem_unit {x y : Float32} (hx : x.isFinite = true) (hy : y.isFinite = true)
    (h_nonneg : 0.0 ≤ x) (h_le : x ≤ y) (h_pos : 0.0 < y) : 0.0 ≤ x / y ∧ x / y ≤ 1.0 := by
  rw [isFinite_iff] at hx hy
  rw [le_iff_ordinal abs_ordinal_zero_le hx.le] at h_nonneg
  rw [le_iff_ordinal hx.le hy.le] at h_le
  rw [zero_lt_iff hy.le] at h_pos
  have h_zero_lt : |ordinal 0.0| < top := by decide
  have h_quotient := abs_ordinal_div_le hx hy h_pos.ne'
  have h_value_nonneg := (value_le_value_iff h_zero_lt hx).mpr h_nonneg
  have h_value_le := (value_le_value_iff hx hy).mpr h_le
  rw [value_zero] at h_value_nonneg
  -- Rounding is monotone, and keeps both ends of the interval.
  rw [le_iff_ordinal abs_ordinal_zero_le h_quotient,
    le_iff_ordinal h_quotient abs_ordinal_one_lt.le, ordinal_div hx hy h_pos.ne',
    ← rounded_value h_zero_lt, ← rounded_value abs_ordinal_one_lt, value_zero, value_one]
  have h_value_nonneg_y := h_value_nonneg.trans h_value_le
  exact ⟨rounded_mono (div_nonneg h_value_nonneg h_value_nonneg_y),
    rounded_mono (div_le_one_of_le₀ h_value_le h_value_nonneg_y)⟩

end Verdure.Binary32
