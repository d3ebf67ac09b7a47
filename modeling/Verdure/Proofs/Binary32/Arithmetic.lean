/-
  Verdure.Proofs.Binary32.Arithmetic

  Differences, squares and sums of binary32 numbers.

  An operation on finite numbers gives the number that its exact result is rounded to.
  What follows is all that a comparison of distances needs: a square grows with the
  distance from zero, and a sum of squares is not below any of them, also where it
  overflows.
-/
import Verdure.Proofs.Binary32.Ordinal

namespace Verdure.Binary32

open Float.Model (Format UnpackedFloat)
open Float.Model.UnpackedFloat

/-! ## Unpacked numbers -/

/-- Significands brought to a smaller exponent. -/
theorem apply_decreaseExponent (s : Sign) (m : ℕ) {e e' : ℤ} (h : e' ≤ e) :
    ((s.apply (decreaseExponent m e e').1 : ℤ) : ℚ) * 2 ^ e' = (s.apply m : ℤ) * 2 ^ e := by
  obtain ⟨k, rfl⟩ : ∃ k : ℕ, e = e' + k := ⟨(e - e').toNat, by omega⟩
  have h_amount : (e' + k - e').toNat = k := by omega
  rw [decreaseExponent, h_amount, Nat.shiftLeft_eq, apply_cast s (m * 2 ^ k : ℕ),
    apply_cast s m, zpow_add₀ (by norm_num), zpow_natCast]
  push_cast
  ring

theorem neg_apply (s : Sign) (n : ℤ) : (-s).apply n = -s.apply n := by
  cases s
  · exact (neg_neg n).symm
  · rfl

theorem apply_mul_cast (s t : Sign) :
    (((s * t).apply 1 : ℤ) : ℚ) = (s.apply 1 : ℤ) * (t.apply 1 : ℤ) := by
  have h : (s * t).apply 1 = s.apply 1 * t.apply 1 := by
    cases s <;> cases t <;> rfl
  rw [h, Int.cast_mul]

theorem Placed.neg {s : Sign} {n : ℤ} {f : UnpackedFloat} (h : Placed s n f) :
    Placed (-s) n (UnpackedFloat.neg f) := by
  cases h with
  | zero => exact .zero
  | finite m e hm h_lt h_exp h_normal => exact .finite m e hm h_lt h_exp h_normal

theorem unpackedValue_neg (f : UnpackedFloat) :
    unpackedValue (UnpackedFloat.neg f) = -unpackedValue f := by
  cases f with
  | notANumber | infinity | zero => exact neg_zero.symm
  | finite s m e hm =>
      show (((-s).apply m : ℤ) : ℚ) * 2 ^ e = -(((s.apply m : ℤ) : ℚ) * 2 ^ e)
      rw [neg_apply, Int.cast_neg, neg_mul]

theorem Placed.rounds_sub {s t : Sign} {n k : ℤ} {f g : UnpackedFloat} (hf : Placed s n f)
    (hg : Placed t k g) :
    ∃ u, Rounds u (unpackedValue f - unpackedValue g) (sub Format.binary32 f g) := by
  cases hf with
  | zero =>
      cases hg with
      | zero =>
          show ∃ u, Rounds u (0 - 0) (if s == -t then .zero s else .zero .positive)
          rw [sub_zero]
          split
          · exact ⟨s, rounds_zero s⟩
          · exact ⟨.positive, rounds_zero .positive⟩
      | finite m e hm h_lt h_exp h_normal =>
          show ∃ u, Rounds u (0 - _) (UnpackedFloat.neg (.finite t m e hm))
          rw [zero_sub, ← unpackedValue_neg]
          exact ⟨-t, (Placed.finite m e hm h_lt h_exp h_normal).neg.rounds⟩
  | finite m e hm h_lt h_exp h_normal =>
      cases hg with
      | zero =>
          show ∃ u, Rounds u (_ - 0) (.finite s m e hm)
          rw [sub_zero]
          exact ⟨s, (Placed.finite m e hm h_lt h_exp h_normal).rounds⟩
      | finite m' e' hm' h_lt' h_exp' h_normal' =>
          -- Both significands at the smaller exponent, the difference is one of integers.
          have h_round := rounds_normalize (s.apply (decreaseExponent m e (min e e')).1
            - t.apply (decreaseExponent m' e' (min e e')).1) (min e e') .positive
          rw [Int.cast_sub, sub_mul, apply_decreaseExponent s m (min_le_left e e'),
            apply_decreaseExponent t m' (min_le_right e e')] at h_round
          exact h_round

/-- A sum is the difference to the number on the other side of zero. -/
theorem add_eq_sub_neg (f g : UnpackedFloat) :
    add Format.binary32 f g = sub Format.binary32 f (UnpackedFloat.neg g) := by
  cases f with
  | notANumber => cases g <;> rfl
  | infinity s =>
      cases g with
      | infinity t => cases s <;> cases t <;> rfl
      | notANumber | zero | finite => rfl
  | zero s =>
      cases g with
      | notANumber => rfl
      | infinity t | zero t => cases s <;> cases t <;> rfl
      | finite t => cases t <;> rfl
  | finite s m e hm =>
      cases g with
      | notANumber | zero => rfl
      | infinity t => cases t <;> rfl
      | finite t m' e' hm' =>
          show UnpackedFloat.normalize Format.binary32 (_ + t.apply _) _ _
            = UnpackedFloat.normalize Format.binary32 (_ - (-t).apply _) _ _
          rw [neg_apply, sub_neg_eq_add]

theorem Placed.rounds_mul {s t : Sign} {n k : ℤ} {f g : UnpackedFloat} (hf : Placed s n f)
    (hg : Placed t k g) :
    Rounds (s * t) (unpackedValue f * unpackedValue g) (mul Format.binary32 f g) := by
  cases hf with
  | zero =>
      cases hg with
      | zero =>
          show Rounds (s * t) (0 * 0) (.zero (s * t))
          rw [zero_mul]
          exact rounds_zero _
      | finite m e hm =>
          show Rounds (s * t) (0 * _) (.zero (s * t))
          rw [zero_mul]
          exact rounds_zero _
  | finite m e hm h_lt h_exp h_normal =>
      cases hg with
      | zero =>
          show Rounds (s * t) (_ * 0) (.zero (s * t))
          rw [mul_zero]
          exact rounds_zero _
      | finite m' e' hm' h_lt' h_exp' h_normal' =>
          have h_pos : 0 < m * m' := Nat.mul_pos hm hm'
          -- Only two subnormal numbers have a product with a short significand.
          have h_exponent : 2 ^ 23 ≤ m * m' ∨ e + e' ≤ -149 := by
            rcases h_normal with h | h
            · exact .inl (h.trans (Nat.le_mul_of_pos_right m hm'))
            · rcases h_normal' with h' | h'
              · exact .inl (h'.trans (Nat.le_mul_of_pos_left m' hm))
              · exact .inr (by omega)
          have h_placed := placed_roundWithAccuracy (s * t) h_pos
            (le_unitExponent h_pos h_exponent)
          have h_rounds := h_placed.rounds_of_magnitude (by positivity)
          have h_value : (((s * t).apply 1 : ℤ) : ℚ) * ((m * m' : ℕ) * 2 ^ (e + e'))
              = (s.apply m : ℤ) * 2 ^ e * ((t.apply m' : ℤ) * 2 ^ e') := by
            rw [apply_mul_cast, apply_cast s m, apply_cast t m', zpow_add₀ (by norm_num)]
            push_cast
            ring
          rw [h_value] at h_rounds
          exact h_rounds

theorem Placed.rounds_add {n k : ℤ} {f g : UnpackedFloat} (hf : Placed .positive n f)
    (hg : Placed .positive k g) :
    Rounds .positive (unpackedValue f + unpackedValue g) (add Format.binary32 f g) := by
  cases hf with
  | zero =>
      have h_add : add Format.binary32 (.zero .positive) g = g := by
        cases hg <;> rfl
      show Rounds .positive (0 + _) _
      rw [zero_add, h_add]
      exact hg.rounds
  | finite m e hm h_lt h_exp h_normal =>
      cases hg with
      | zero =>
          show Rounds .positive (_ + 0) (.finite .positive m e hm)
          rw [add_zero]
          exact (Placed.finite m e hm h_lt h_exp h_normal).rounds
      | finite m' e' hm' h_lt' h_exp' h_normal' =>
          -- Both significands are brought to the lower exponent, where their sum is exact.
          have h_pos : 0 < Sign.positive.apply (decreaseExponent m e (min e e')).1
              + Sign.positive.apply (decreaseExponent m' e' (min e e')).1 := by
            have h_shift : 0 < (decreaseExponent m e (min e e')).1 := by
              rw [decreaseExponent, Nat.shiftLeft_eq]
              positivity
            simp only [Sign.apply]
            omega
          have h_round := rounds_normalize_of_pos h_pos (min e e') .positive
          rw [Int.cast_add, add_mul, apply_decreaseExponent .positive m (min_le_left e e'),
            apply_decreaseExponent .positive m' (min_le_right e e')] at h_round
          exact h_round

/-! ## Differences and sums -/

theorem ordinal_sub {x y : Float32} (hx : |ordinal x| < top) (hy : |ordinal y| < top) :
    ordinal (x - y) = rounded (value x - value y) := by
  obtain ⟨s, n, h_x, _⟩ := exists_placed hx
  obtain ⟨t, k, h_y, _⟩ := exists_placed hy
  obtain ⟨u, h_rounds⟩ := h_x.rounds_sub h_y
  exact ordinal_pack h_rounds

theorem abs_ordinal_sub_le {x y : Float32} (hx : |ordinal x| < top) (hy : |ordinal y| < top) :
    |ordinal (x - y)| ≤ top := by
  rw [ordinal_sub hx hy]
  exact abs_rounded_le _

theorem ordinal_neg {x : Float32} (hx : |ordinal x| < top) : ordinal (-x) = -ordinal x := by
  obtain ⟨s, n, h_placed, h_lt, h_ordinal⟩ := exists_placed hx
  have h_neg : ordinal (-x) = rounded (unpackedValue (UnpackedFloat.neg x.toModel.unpack)) :=
    ordinal_pack h_placed.neg.rounds
  rw [h_neg, h_placed.neg.rounded_value, min_eq_left h_lt.le, h_ordinal, neg_apply]

theorem ordinal_add {x y : Float32} (hx : |ordinal x| < top) (hy : |ordinal y| < top) :
    ordinal (x + y) = rounded (value x + value y) := by
  obtain ⟨s, n, h_x, _⟩ := exists_placed hx
  obtain ⟨t, k, h_y, _⟩ := exists_placed hy
  obtain ⟨u, h_rounds⟩ := h_x.rounds_sub h_y.neg
  rw [← add_eq_sub_neg, unpackedValue_neg, sub_neg_eq_add] at h_rounds
  exact ordinal_pack h_rounds

/-! ## Products -/

theorem ordinal_mul {x y : Float32} (hx : |ordinal x| < top) (hy : |ordinal y| < top) :
    ordinal (x * y) = rounded (value x * value y) := by
  obtain ⟨s, n, h_x, _⟩ := exists_placed hx
  obtain ⟨t, k, h_y, _⟩ := exists_placed hy
  exact ordinal_pack (h_x.rounds_mul h_y)

theorem ordinal_notANumber :
    ordinal (.ofModel (.pack .notANumber)) = 0x7fc00000 := by decide

/-- Infinity times a number that is not below zero is infinite, or it is a NaN, which has its
    position behind infinity. -/
theorem top_le_ordinal_mul {x y : Float32} (hx : 0 ≤ ordinal x) (hx_lt : ordinal x < top)
    (hy : ordinal y = top) : top ≤ ordinal (x * y) := by
  have h_finite : |ordinal x| < top := by rwa [abs_of_nonneg hx]
  obtain ⟨s, n, h_x, _, h_ordinal⟩ := exists_placed h_finite
  obtain ⟨t, k, h_y, h_ordinal', _⟩ := exists_stored (x := y) (by rw [hy]; decide)
  have h_k := h_y.nonneg
  rw [h_ordinal] at hx
  rw [h_ordinal'] at hy
  show top ≤ ordinal (.ofModel (.pack (mul Format.binary32 x.toModel.unpack y.toModel.unpack)))
  generalize x.toModel.unpack = f at *
  generalize y.toModel.unpack = g at *
  -- The second factor is positive infinity.
  cases t with
  | negative =>
      have h_top : 0 < top := by decide
      simp only [Sign.apply] at hy
      omega
  | positive =>
      cases h_y with
      | finite _ h_lt => exact absurd hy h_lt.ne
      | infinity =>
          cases h_x with
          | zero =>
              show top ≤ ordinal (.ofModel (.pack .notANumber))
              rw [ordinal_notANumber]
              decide
          | finite m e hm h_lt h_exp h_normal =>
              cases s with
              | negative =>
                  simp only [Sign.apply] at hx
                  omega
              | positive => exact (ordinal_pack_infinity .positive).ge

theorem abs_ordinal_mul_le {x y : Float32} (hx : |ordinal x| < top) (hy : |ordinal y| < top) :
    |ordinal (x * y)| ≤ top := by
  rw [ordinal_mul hx hy]
  exact abs_rounded_le _

/-- Exact products grow with the first factor, and rounding is monotone. -/
theorem ordinal_mul_mono {x y c : Float32} (hx : |ordinal x| < top) (hy : |ordinal y| < top)
    (hc : |ordinal c| < top) (h_nonneg : 0 ≤ ordinal c) (h : ordinal x ≤ ordinal y) :
    ordinal (x * c) ≤ ordinal (y * c) := by
  have h_zero_lt : |ordinal 0.0| < top := by decide
  rw [← ordinal_zero, ← value_le_value_iff h_zero_lt hc] at h_nonneg
  rw [ordinal_mul hx hc, ordinal_mul hy hc]
  exact rounded_mono (mul_le_mul_of_nonneg_right ((value_le_value_iff hx hy).mpr h) h_nonneg)

/-- Scaling by a positive number, perhaps infinite, keeps the order of the numbers from zero on,
    as far as comparisons with a third number tell. -/
theorem mul_lt_of_le {x y c z : Float32} (h_nonneg : 0.0 ≤ x) (h_le : x ≤ y)
    (hy : |ordinal y| < top) (h_pos : 0.0 < c) (h : y * c < z) : x * c < z := by
  have hx := (abs_ordinal_le_of_le h_le).1
  have hc := (abs_ordinal_le_of_lt h_pos).2
  rw [le_iff_ordinal abs_ordinal_zero_le hx, ordinal_zero] at h_nonneg
  rw [le_iff_ordinal hx hy.le] at h_le
  rw [zero_lt_iff hc] at h_pos
  have hy_lt : ordinal y < top := (le_abs_self _).trans_lt hy
  rcases hc.lt_or_eq with h_finite | h_infinite
  · have hx_lt : |ordinal x| < top := by
      rw [abs_of_nonneg h_nonneg]
      exact h_le.trans_lt hy_lt
    have h_product := ordinal_mul_mono hx_lt hy h_finite h_pos.le h_le
    have h_product_le := (le_iff_ordinal (abs_ordinal_mul_le hx_lt h_finite)
      (abs_ordinal_mul_le hy h_finite)).mpr h_product
    exact lt_of_le_of_lt_ordinal h_product_le h
  · -- Nothing is above an infinite product, and nothing compares with a NaN.
    rw [abs_of_pos h_pos] at h_infinite
    obtain ⟨h_product, hz⟩ := abs_ordinal_le_of_lt h
    rw [lt_iff_ordinal h_product hz] at h
    have h_top := top_le_ordinal_mul (h_nonneg.trans h_le) hy_lt h_infinite
    exact absurd (h_top.trans_lt h) ((le_abs_self _).trans hz).not_gt

/-! ## Squares -/

theorem isMagnitude_mul_self {x : Float32} (hx : |ordinal x| ≤ top) : IsMagnitude (x * x) := by
  obtain ⟨s, n, h_stored, _⟩ := exists_stored hx
  show IsMagnitude (.ofModel (.pack (mul Format.binary32 x.toModel.unpack x.toModel.unpack)))
  have h_sign : s * s = .positive := by
    cases s <;> rfl
  generalize x.toModel.unpack = f at *
  cases h_stored with
  | infinity =>
      show IsMagnitude (.ofModel (.pack (.infinity (s * s))))
      rw [h_sign]
      exact isMagnitude_pack_infinity
  | finite h_placed _ =>
      have h_rounds := h_placed.rounds_mul h_placed
      rw [h_sign] at h_rounds
      exact isMagnitude_pack h_rounds

theorem ordinal_mul_self {x : Float32} (hx : |ordinal x| < top) :
    ordinal (x * x) = rounded (value x * value x) :=
  ordinal_mul hx hx

theorem ordinal_mul_self_infinite {x : Float32} (hx : |ordinal x| = top) :
    ordinal (x * x) = top := by
  obtain ⟨s, n, h_stored, h_ordinal, _⟩ := exists_stored hx.le
  rw [h_ordinal, abs_apply, abs_of_nonneg h_stored.nonneg] at hx
  show ordinal (.ofModel (.pack (mul Format.binary32 x.toModel.unpack x.toModel.unpack))) = top
  generalize x.toModel.unpack = f at *
  cases h_stored with
  | infinity =>
      have h_infinite := ordinal_pack_infinity (s * s)
      rw [show (s * s).apply top = top by cases s <;> rfl] at h_infinite
      exact h_infinite
  | finite _ h_lt => omega

/-- A number farther from zero has a square that is not smaller. -/
theorem ordinal_mul_self_mono {x y : Float32} (hy : |ordinal y| ≤ top)
    (h : |ordinal x| ≤ |ordinal y|) : ordinal (x * x) ≤ ordinal (y * y) := by
  rcases hy.lt_or_eq with h_finite | h_infinite
  · -- Exact squares grow with the distance from zero, and rounding is monotone.
    have hx : |ordinal x| < top := h.trans_lt h_finite
    rw [ordinal_mul_self hx, ordinal_mul_self h_finite]
    have h_value := abs_value_le_of_abs_ordinal_le hx h_finite h
    exact rounded_mono (abs_le_iff_mul_self_le.mp h_value)
  · rw [ordinal_mul_self_infinite h_infinite]
    have h_magnitude := (isMagnitude_mul_self (h.trans hy)).abs_ordinal_le
    exact (le_abs_self _).trans h_magnitude

/-! ## Sums of magnitudes -/

theorem Stored.add_infinity {n : ℤ} {f : UnpackedFloat} (h : Stored .positive n f) :
    add Format.binary32 f (.infinity .positive) = .infinity .positive := by
  cases h with
  | infinity => rfl
  | finite h_placed => cases h_placed <;> rfl

theorem Stored.infinity_add {n : ℤ} {f : UnpackedFloat} (h : Stored .positive n f) :
    add Format.binary32 (.infinity .positive) f = .infinity .positive := by
  cases h with
  | infinity => rfl
  | finite h_placed => cases h_placed <;> rfl

theorem Placed.value_nonneg {n : ℤ} {f : UnpackedFloat} (h : Placed .positive n f) :
    0 ≤ unpackedValue f := by
  rw [h.value_eq, Sign.apply, Int.cast_one, one_mul]
  exact valueAt_nonneg h.nonneg

theorem Placed.position_eq {n : ℤ} {f : UnpackedFloat} (h : Placed .positive n f)
    (h_lt : n < top) : n = rounded (unpackedValue f) := by
  rw [h.rounded_value, min_eq_left h_lt.le]
  rfl

/-- The sum of two numbers with a clear sign bit has one, and is not below either. -/
theorem IsMagnitude.add {x y : Float32} (hx : IsMagnitude x) (hy : IsMagnitude y) :
    IsMagnitude (x + y) ∧ ordinal x ≤ ordinal (x + y) ∧ ordinal y ≤ ordinal (x + y) := by
  obtain ⟨n, h_x, h_ordinal⟩ := hx.exists_stored
  obtain ⟨k, h_y, h_ordinal'⟩ := hy.exists_stored
  have h_n := h_x.le_top
  have h_k := h_y.le_top
  rw [h_ordinal, h_ordinal']
  have h_sum : x + y = .ofModel (.pack
    (Float.Model.UnpackedFloat.add Format.binary32 x.toModel.unpack y.toModel.unpack)) := rfl
  rw [h_sum]
  generalize x.toModel.unpack = f at *
  generalize y.toModel.unpack = g at *
  have h_infinite := ordinal_pack_infinity .positive
  -- Infinity swallows the other number; finite numbers round monotonically.
  cases h_x with
  | infinity =>
      rw [h_y.infinity_add, h_infinite]
      exact ⟨isMagnitude_pack_infinity, h_n, h_k⟩
  | finite h_f h_f_lt =>
      cases h_y with
      | infinity =>
          rw [(Stored.finite h_f h_f_lt).add_infinity, h_infinite]
          exact ⟨isMagnitude_pack_infinity, h_n, h_k⟩
      | finite h_g h_g_lt =>
          have h_rounds := h_f.rounds_add h_g
          have h_f_nonneg := h_f.value_nonneg
          have h_g_nonneg := h_g.value_nonneg
          rw [ordinal_pack h_rounds, h_f.position_eq h_f_lt, h_g.position_eq h_g_lt]
          refine ⟨isMagnitude_pack h_rounds, rounded_mono ?_, rounded_mono ?_⟩
          · linarith
          · linarith

end Verdure.Binary32
