/-
  Verdure.Proofs.Binary32.Placement

  Where an unpacked number stands.

  `Placed s n f` says that `f` is in the form packing expects and is the number at position
  `n` on the side `s` of zero.  Rounding takes a rational to the number placed at its
  `magnitude`.
-/
import Verdure.Proofs.Binary32.Rounding

namespace Verdure.Binary32

open Float.Model (Format totalExponent)
open Float.Model.UnpackedFloat
open Float.Model (UnpackedFloat)

/-- `f` is the number at position `n` on the side `s` of zero.  Positions from `top` on are
    those of numbers that overflow. -/
inductive Placed (s : Sign) : ℤ → UnpackedFloat → Prop
  | zero : Placed s 0 (.zero s)
  | finite (m : ℕ) (e : ℤ) (hm : 0 < m) (h_lt : m < 2 ^ 24) (h_exp : -149 ≤ e)
      (h_normal : 2 ^ 23 ≤ m ∨ e = -149) :
      Placed s ((e + 149) * 2 ^ 23 + m) (.finite s m e hm)

/-- The rational a finite number is. -/
def unpackedValue : UnpackedFloat → ℚ
  | .finite s m e _ => s.apply m * 2 ^ e
  | _ => 0

/-! ## Exponents -/

theorem log_mul_zpow_of_floor {m : ℕ} (hm : 0 < m) {q : ℚ} (h : (m : ℤ) = ⌊q⌋) (e : ℤ) :
    Int.log 2 (q * 2 ^ e) = m.log2 + e := by
  obtain ⟨h_m_le, h_lt_m⟩ := Int.floor_eq_iff.mp h.symm
  have h_log_le : (2 : ℚ) ^ (m.log2 : ℤ) ≤ m := by
    exact_mod_cast Nat.log2_self_le hm.ne'
  have h_lt_log : (m : ℚ) + 1 ≤ 2 ^ ((m.log2 : ℤ) + 1) := by
    exact_mod_cast Nat.succ_le_of_lt (Nat.lt_log2_self (n := m))
  have h_le : (2 : ℚ) ^ (m.log2 : ℤ) ≤ q := h_log_le.trans (by exact_mod_cast h_m_le)
  have h_lt : q < 2 ^ ((m.log2 : ℤ) + 1) := lt_of_lt_of_le (by exact_mod_cast h_lt_m) h_lt_log
  have h_pos : 0 < q * 2 ^ e := mul_pos (lt_of_lt_of_le (by positivity) h_le) (by positivity)
  -- The leading bit of `q` is bit `m.log2`, and the factor moves it by `e` places.
  apply le_antisymm
  · rw [← Int.lt_add_one_iff, ← Int.lt_zpow_iff_log_lt (by norm_num) h_pos]
    rw [show (m.log2 : ℤ) + e + 1 = m.log2 + 1 + e by ring, Nat.cast_ofNat,
      zpow_add₀ (by norm_num)]
    exact mul_lt_mul_of_pos_right h_lt (by positivity)
  · rw [← Int.zpow_le_iff_le_log (by norm_num) h_pos, Nat.cast_ofNat,
      zpow_add₀ (by norm_num)]
    exact mul_le_mul_of_nonneg_right h_le (by positivity)

theorem log_mul_zpow {m : ℕ} (hm : 0 < m) (e : ℤ) :
    Int.log 2 ((m : ℚ) * 2 ^ e) = m.log2 + e :=
  log_mul_zpow_of_floor hm (Int.floor_natCast m).symm e

theorem targetExponent_eq {m : ℕ} (hm : 0 < m) (e : ℤ) :
    Format.binary32.targetExponent (totalExponent m e) = unitExponent (m * 2 ^ e) := by
  rw [unitExponent, log_mul_zpow hm]
  -- The parameters of the format, with its 23 stored bits and its least exponent -149.
  show max ((m.log2 + 1 + e : ℤ) - (1 + 23 : ℕ)) (3 - 2 ^ 7 - (1 + 23 : ℕ)) = _
  omega

/-- A significand that stands for `q`, and is not too short for rounding, has the exponent of
    `q`. -/
theorem targetExponent_eq_of_floor {m : ℕ} {q : ℚ} (hq : 0 < q) (h : (m : ℤ) = ⌊q⌋) {e : ℤ}
    (he : e ≤ unitExponent (q * 2 ^ e)) :
    Format.binary32.targetExponent (totalExponent m e) = unitExponent (q * 2 ^ e) := by
  show max ((m.log2 + 1 + e : ℤ) - (1 + 23 : ℕ)) (3 - 2 ^ 7 - (1 + 23 : ℕ)) = _
  unfold unitExponent at he ⊢
  rcases m.eq_zero_or_pos with rfl | hm
  · -- Below one unit of the exponent, which then is the least one.
    have h_lt_one : q < 1 := (Int.floor_eq_zero_iff.mp h.symm).2
    have h_lt : q * 2 ^ e < ((2 : ℕ) : ℚ) ^ e := by
      rw [Nat.cast_ofNat]
      exact mul_lt_of_lt_one_left (by positivity) h_lt_one
    rw [Int.lt_zpow_iff_log_lt (by norm_num) (by positivity)] at h_lt
    rw [Nat.log2_zero]
    omega
  · rw [log_mul_zpow_of_floor hm h]
    omega

theorem le_unitExponent {m : ℕ} (hm : 0 < m) {e : ℤ} (h : 2 ^ 23 ≤ m ∨ e ≤ -149) :
    e ≤ unitExponent (m * 2 ^ e) := by
  rw [unitExponent, log_mul_zpow hm]
  rcases h with h | h
  · have h_log := (Nat.le_log2 hm.ne').mpr h
    omega
  · omega

/-- A significand in canonical form is not shifted. -/
theorem unitExponent_canonical {m : ℕ} (hm : 0 < m) {e : ℤ} (h_lt : m < 2 ^ 24)
    (h_exp : -149 ≤ e) (h_normal : 2 ^ 23 ≤ m ∨ e = -149) :
    unitExponent (m * 2 ^ e) = e := by
  have h_log := (Nat.log2_lt hm.ne').mpr h_lt
  apply le_antisymm
  · rw [unitExponent, log_mul_zpow hm]
    omega
  · exact le_unitExponent hm (h_normal.imp_right le_of_eq)

theorem magnitude_canonical {m : ℕ} (hm : 0 < m) {e : ℤ} (h_lt : m < 2 ^ 24)
    (h_exp : -149 ≤ e) (h_normal : 2 ^ 23 ≤ m ∨ e = -149) :
    magnitude (m * 2 ^ e) = (e + 149) * 2 ^ 23 + m := by
  rw [magnitude, unitExponent_canonical hm h_lt h_exp h_normal, mul_div_assoc,
    div_self (by positivity), mul_one]
  rw [show (m : ℚ) = ((m : ℤ) : ℚ) by norm_num, roundHalfEven_intCast]

/-! ## Rounding -/

theorem shiftToExponent_add (m : ℕ) (e : ℤ) (a : Accuracy) (k : ℕ) :
    shiftToExponent m e a (e + k)
      = (ExtendedMantissa.ofMantissaAndAccuracy m a >>> k, e + k) := by
  have h_amount : (e + k - e).toNat = k := by omega
  simp only [shiftToExponent, h_amount]

theorem shiftToExponent_of_le {m : ℕ} {e t : ℤ} (h : t ≤ e) :
    shiftToExponent m e .exact t = (⟨m, false, false⟩, e) := by
  have h_amount : (t - e).toNat = 0 := by omega
  simp only [shiftToExponent, h_amount, Nat.cast_zero, add_zero]
  rfl

/-- After rounding at most a carry has to be shifted out. -/
theorem shiftToTargetExponent_carry {r : ℕ} {t : ℤ} (hr : r ≤ 2 ^ 24) (ht : -149 ≤ t) :
    shiftToTargetExponent Format.binary32 r t .exact
      = if r = 2 ^ 24 then (⟨2 ^ 23, false, false⟩, t + 1)
        else (⟨r, false, false⟩, t) := by
  have h_target : Format.binary32.targetExponent (totalExponent r t)
      = max ((r.log2 + 1 + t : ℤ) - 24) (-149) := rfl
  unfold shiftToTargetExponent
  rw [h_target]
  split
  next h =>
    -- The one significand that is too long, a power of two.
    have h_next : max ((r.log2 + 1 + t : ℤ) - 24) (-149) = t + (1 : ℕ) := by
      rw [h, Nat.log2_two_pow]
      omega
    rw [h_next, h]
    exact shiftToExponent_add _ _ _ _
  next h =>
    have h_log : r.log2 < 24 := by
      rcases r.eq_zero_or_pos with rfl | h_pos
      · decide
      · exact (Nat.log2_lt h_pos.ne').mpr (by omega)
    exact shiftToExponent_of_le (by omega)

/-- Rounding takes what an extended significand stands for to the number at its magnitude. -/
theorem placed_roundWithAccuracy_of_standsFor (s : Sign) {m : ℕ} {a : Accuracy} {q : ℚ}
    (hq : 0 < q) (h : StandsFor (ExtendedMantissa.ofMantissaAndAccuracy m a) q) {e : ℤ}
    (he : e ≤ unitExponent (q * 2 ^ e)) :
    Placed s (magnitude (q * 2 ^ e)) (roundWithAccuracy Format.binary32 s m e a) := by
  have hv : 0 < q * 2 ^ e := by positivity
  have h_target := targetExponent_eq_of_floor hq (h.floor_eq_of_ofMantissa) he
  have h_unit := neg_le_unitExponent (q * 2 ^ e)
  have h_le := roundHalfEven_div_le hv
  have h_ge := le_roundHalfEven_div hv
  unfold magnitude
  generalize unitExponent (q * 2 ^ e) = t at *
  -- The significand that is left after the bulk of the shifting.
  obtain ⟨k, rfl⟩ : ∃ k : ℕ, t = e + k := ⟨(t - e).toNat, by omega⟩
  have h_shift : shiftToTargetExponent Format.binary32 m e a
      = (ExtendedMantissa.ofMantissaAndAccuracy m a >>> k, e + k) := by
    rw [shiftToTargetExponent, h_target]
    exact shiftToExponent_add m e a k
  have h_div : q * 2 ^ e / 2 ^ (e + k) = q / 2 ^ k := by
    rw [zpow_add₀ (by norm_num), zpow_natCast]
    field_simp
  have h_round := (h.shiftRight k).roundedMantissa
  rw [← h_div] at h_round
  rw [← h_round] at h_le h_ge ⊢
  unfold roundWithAccuracy
  rw [h_shift]
  dsimp only
  generalize (ExtendedMantissa.ofMantissaAndAccuracy m a >>> k).roundedMantissa = r at *
  rw [shiftToTargetExponent_carry (by omega) h_unit]
  by_cases h_carry : r = 2 ^ 24
  · -- The carry gives the first number of the next exponent, at the same position.
    rw [if_pos h_carry]
    have h_placed := Placed.finite (s := s) (2 ^ 23) (e + k + 1) (by norm_num) (by norm_num)
      (by omega) (.inl le_rfl)
    rw [h_carry, show (e + k + 149) * 2 ^ 23 + ((2 ^ 24 : ℕ) : ℤ)
      = (e + k + 1 + 149) * 2 ^ 23 + ((2 ^ 23 : ℕ) : ℤ) by push_cast; ring]
    exact h_placed
  · rw [if_neg h_carry]
    dsimp only
    by_cases h_zero : r = 0
    · rw [dif_pos h_zero, h_zero]
      -- Only at the least exponent can everything be rounded away.
      have h_least : e + k = -149 := by
        by_contra h
        have := h_ge (by omega)
        omega
      rw [h_least]
      exact .zero
    · rw [dif_neg h_zero]
      refine .finite r (e + k) (by omega) (by omega) h_unit ?_
      by_cases h_least : e + k = -149
      · exact .inr h_least
      · have := h_ge (by omega)
        exact .inl (by omega)

theorem placed_roundWithAccuracy (s : Sign) {m : ℕ} (hm : 0 < m) {e : ℤ}
    (he : e ≤ unitExponent (m * 2 ^ e)) :
    Placed s (magnitude (m * 2 ^ e)) (roundWithAccuracy Format.binary32 s m e .exact) :=
  placed_roundWithAccuracy_of_standsFor s (by exact_mod_cast hm) (standsFor_ofMantissa m) he

theorem placed_round (s : Sign) {m : ℕ} (hm : 0 < m) (e : ℤ) :
    Placed s (magnitude (m * 2 ^ e)) (UnpackedFloat.round Format.binary32 s m e) := by
  unfold UnpackedFloat.round decreaseExponent
  rw [targetExponent_eq hm]
  dsimp only
  generalize hk : (e - unitExponent (m * 2 ^ e)).toNat = k
  have h_value : ((m <<< k : ℕ) : ℚ) * 2 ^ (e - k) = m * 2 ^ e := by
    rw [Nat.shiftLeft_eq, zpow_sub₀ (by norm_num), zpow_natCast]
    push_cast
    field_simp
  have h_pos : 0 < m <<< k := by
    rw [Nat.shiftLeft_eq]
    positivity
  -- Padding the significand does not change the number, so the target exponent stays.
  rw [← h_value] at hk ⊢
  exact placed_roundWithAccuracy s h_pos (by omega)

/-- `f` is what an operation with the exact result `v` gives, on the side `s` of zero. -/
inductive Rounds (s : Sign) (v : ℚ) (f : UnpackedFloat) : Prop
  | intro (n : ℤ) (placed : Placed s n f) (position : s.apply (min n top) = rounded v)

theorem apply_cast (s : Sign) (n : ℤ) : ((s.apply n : ℤ) : ℚ) = s.apply 1 * n := by
  cases s <;> simp [Sign.apply]

theorem rounded_apply_mul (s : Sign) {v : ℚ} (hv : 0 < v) :
    rounded (s.apply 1 * v) = s.apply (min (magnitude v) top) := by
  rw [min_comm, ← rounded_of_pos hv]
  cases s with
  | negative => simp [Sign.apply, rounded_neg]
  | positive => simp [Sign.apply]

theorem Placed.rounds_of_magnitude {s : Sign} {v : ℚ} {f : UnpackedFloat} (hv : 0 < v)
    (h : Placed s (magnitude v) f) : Rounds s (s.apply 1 * v) f :=
  ⟨_, h, (rounded_apply_mul s hv).symm⟩

theorem Placed.nonneg {s : Sign} {n : ℤ} {f : UnpackedFloat} (h : Placed s n f) : 0 ≤ n := by
  cases h with
  | zero => exact le_rfl
  | finite m e hm h_lt h_exp => omega

/-- A number is rounded to itself. -/
theorem Placed.rounded_value {s : Sign} {n : ℤ} {f : UnpackedFloat} (h : Placed s n f) :
    rounded (unpackedValue f) = s.apply (min n top) := by
  cases h with
  | zero =>
      show rounded 0 = s.apply (min 0 top)
      rw [rounded_zero]
      cases s <;> rfl
  | finite m e hm h_lt h_exp h_normal =>
      show rounded (((s.apply m : ℤ) : ℚ) * 2 ^ e) = _
      rw [apply_cast, mul_assoc, Int.cast_natCast, rounded_apply_mul s (by positivity),
        magnitude_canonical hm h_lt h_exp h_normal]

theorem Placed.rounds {s : Sign} {n : ℤ} {f : UnpackedFloat} (h : Placed s n f) :
    Rounds s (unpackedValue f) f :=
  ⟨n, h, h.rounded_value.symm⟩

theorem rounds_zero (s : Sign) : Rounds s 0 (.zero s) := (Placed.zero (s := s)).rounds

/-- The distance from zero of the number at a position. -/
def valueAt (n : ℤ) : ℚ :=
  if n < 2 ^ 23 then n * 2 ^ (-149 : ℤ)
  else (2 ^ 23 + n % 2 ^ 23 : ℤ) * 2 ^ (n / 2 ^ 23 - 150)

theorem valueAt_zero : valueAt 0 = 0 := by
  simp [valueAt]

theorem valueAt_nonneg {n : ℤ} (hn : 0 ≤ n) : 0 ≤ valueAt n := by
  have h_mod : 0 ≤ n % 2 ^ 23 := Int.emod_nonneg n (by norm_num)
  unfold valueAt
  split
  · have h_cast : (0 : ℚ) ≤ n := by exact_mod_cast hn
    positivity
  · have h_cast : (0 : ℚ) ≤ (2 ^ 23 + n % 2 ^ 23 : ℤ) := by
      exact_mod_cast (by omega : (0 : ℤ) ≤ 2 ^ 23 + n % 2 ^ 23)
    positivity

/-- A number is determined by its side and its position. -/
theorem Placed.value_eq {s : Sign} {n : ℤ} {f : UnpackedFloat} (h : Placed s n f) :
    unpackedValue f = s.apply 1 * valueAt n := by
  cases h with
  | zero =>
      rw [valueAt_zero, mul_zero]
      rfl
  | finite m e hm h_lt h_exp h_normal =>
      show ((s.apply m : ℤ) : ℚ) * 2 ^ e = _
      rw [apply_cast, mul_assoc, Int.cast_natCast, valueAt]
      split
      next h_small =>
        -- A subnormal number, whose position is its significand.
        obtain rfl : e = -149 := by omega
        norm_num
      next h_large =>
        -- A normal number: the position splits into exponent and stored significand.
        have h_mod : 2 ^ 23 + ((e + 149) * 2 ^ 23 + m) % 2 ^ 23 = (m : ℤ) := by omega
        have h_div : ((e + 149) * 2 ^ 23 + m) / 2 ^ 23 - 150 = e := by omega
        rw [h_mod, h_div, Int.cast_natCast]

theorem rounds_normalize_of_pos {k : ℤ} (hk : 0 < k) (e : ℤ) (z : Sign) :
    Rounds .positive (k * 2 ^ e) (UnpackedFloat.normalize Format.binary32 k e z) := by
  obtain ⟨m, rfl⟩ := Int.eq_ofNat_of_zero_le hk.le
  have h_compare : compare (m : ℤ) 0 = .gt := compare_gt_iff_gt.mpr hk
  have h_pos : 0 < m := by omega
  have h_rounds := (placed_round .positive h_pos e).rounds_of_magnitude (by positivity)
  rw [Sign.apply, Int.cast_one, one_mul] at h_rounds
  unfold UnpackedFloat.normalize
  rw [h_compare]
  exact_mod_cast h_rounds

theorem rounds_normalize_of_neg {k : ℤ} (hk : k < 0) (e : ℤ) (z : Sign) :
    Rounds .negative (k * 2 ^ e) (UnpackedFloat.normalize Format.binary32 k e z) := by
  obtain ⟨m, h_m⟩ := Int.eq_ofNat_of_zero_le (neg_nonneg.mpr hk.le)
  have h_compare : compare k 0 = .lt := compare_lt_iff_lt.mpr hk
  have h_pos : 0 < m := by omega
  have h_rounds := (placed_round .negative h_pos e).rounds_of_magnitude (by positivity)
  have h_value : ((Sign.negative.apply 1 : ℤ) : ℚ) * (m * 2 ^ e) = k * 2 ^ e := by
    have h_cast : (m : ℚ) = -k := by exact_mod_cast h_m.symm
    rw [h_cast, Sign.apply]
    push_cast
    ring
  rw [h_value] at h_rounds
  unfold UnpackedFloat.normalize
  rw [h_compare, h_m]
  exact h_rounds

theorem rounds_normalize (k e : ℤ) (z : Sign) :
    ∃ s, Rounds s (k * 2 ^ e) (UnpackedFloat.normalize Format.binary32 k e z) := by
  rcases lt_trichotomy k 0 with h | rfl | h
  · exact ⟨_, rounds_normalize_of_neg h e z⟩
  · rw [Int.cast_zero, zero_mul]
    exact ⟨z, rounds_zero z⟩
  · exact ⟨_, rounds_normalize_of_pos h e z⟩

end Verdure.Binary32
