/-
  Verdure.Proofs.Binary32.Ordinal

  Binary32 numbers numbered through their bits.

  `ordinal x` is the signed position of `x`: its bits read as an integer, mirrored when the
  sign bit is set, so that the two zeros share position `0`.  `Stored s n f` relates a
  position to the unpacked form that arithmetic sees.  Comparisons of numbers are then
  comparisons of ordinals, and the order used for sorting agrees with them on numbers whose
  sign bit is clear.
-/
import Verdure.Proofs.Binary32.Placement

namespace Verdure.Binary32

open Float.Model (Format UnpackedFloat)
open Float.Model.UnpackedFloat

/-- `f` is a number, perhaps infinite, at position `n` on the side `s` of zero. -/
inductive Stored (s : Sign) : ℤ → UnpackedFloat → Prop
  | infinity : Stored s top (.infinity s)
  | finite {n : ℤ} {f : UnpackedFloat} (placed : Placed s n f) (h_lt : n < top) : Stored s n f

theorem Stored.nonneg {s : Sign} {n : ℤ} {f : UnpackedFloat} (h : Stored s n f) : 0 ≤ n := by
  cases h with
  | infinity => decide
  | finite placed => exact placed.nonneg

theorem Stored.le_top {s : Sign} {n : ℤ} {f : UnpackedFloat} (h : Stored s n f) : n ≤ top := by
  cases h with
  | infinity => exact le_rfl
  | finite _ h_lt => exact h_lt.le

theorem Stored.placed_of_lt {s : Sign} {n : ℤ} {f : UnpackedFloat} (h : Stored s n f)
    (h_lt : n < top) : Placed s n f := by
  cases h with
  | infinity => exact absurd h_lt (lt_irrefl _)
  | finite placed => exact placed

theorem Stored.isFinite_iff {s : Sign} {n : ℤ} {f : UnpackedFloat} (h : Stored s n f) :
    f.isFinite = true ↔ n < top := by
  cases h with
  | infinity => exact iff_of_false Bool.false_ne_true (lt_irrefl top)
  | finite placed h_lt =>
      refine iff_of_true ?_ h_lt
      cases placed <;> rfl

theorem Stored.isNaN_eq {s : Sign} {n : ℤ} {f : UnpackedFloat} (h : Stored s n f) :
    f.isNaN = false := by
  cases h with
  | infinity => rfl
  | finite placed => cases placed <;> rfl

theorem Stored.isInf_iff {s : Sign} {n : ℤ} {f : UnpackedFloat} (h : Stored s n f) :
    f.isInf = true ↔ n = top := by
  cases h with
  | infinity => exact iff_of_true rfl rfl
  | finite placed h_lt =>
      refine iff_of_false ?_ h_lt.ne
      cases placed <;> exact Bool.false_ne_true

/-- The sign bit. -/
def signBit : Sign → ℤ
  | .negative => 1
  | .positive => 0

/-! ## Packing -/

theorem toNat_packComponents (s : Sign) (e : BitVec 8) (m : BitVec 23) :
    ((packComponents Format.binary32 s e m).toNat : ℤ)
      = signBit s * 2 ^ 31 + e.toNat * 2 ^ 23 + m.toNat := by
  unfold packComponents
  rw [BitVec.toNat_append, BitVec.toNat_append, ← Nat.shiftLeft_add_eq_or_of_lt m.isLt,
    ← Nat.shiftLeft_add_eq_or_of_lt e.isLt, Nat.shiftLeft_eq, Nat.shiftLeft_eq]
  cases s <;> simp only [signBit, Sign.toBitVec] <;> push_cast <;> ring

theorem toNat_packedInfinity (s : Sign) :
    ((pack Format.binary32 (.infinity s)).toNat : ℤ) = signBit s * 2 ^ 31 + top := by
  show ((packComponents Format.binary32 s (-1#8) 0#23).toNat : ℤ) = _
  rw [toNat_packComponents]
  simp [top]

theorem toNat_pack {s : Sign} {n : ℤ} {f : UnpackedFloat} (h : Placed s n f) :
    ((pack Format.binary32 f).toNat : ℤ) = signBit s * 2 ^ 31 + min n top := by
  cases h with
  | zero =>
      show ((packComponents Format.binary32 s 0#8 0#23).toNat : ℤ) = _
      rw [toNat_packComponents]
      simp [top]
  | finite m e hm h_lt h_exp h_normal =>
      have h_log : m.log2 + 1 = 24 ↔ 2 ^ 23 ≤ m := by
        have h_upper := (Nat.log2_lt hm.ne').mpr h_lt
        have h_lower : 23 ≤ m.log2 ↔ 2 ^ 23 ≤ m := Nat.le_log2 hm.ne'
        omega
      have h_bias : e + ((127 : ℕ) : ℤ) + ((23 : ℕ) : ℤ) = e + 150 := by ring
      show ((if 2 ^ 8 ≤ (e + ((127 : ℕ) : ℤ) + ((23 : ℕ) : ℤ)).toNat + 1 then
          packedInfinity Format.binary32 s
        else if m.log2 + 1 = 24 then
          packComponents Format.binary32 s
            (BitVec.ofNat 8 (e + ((127 : ℕ) : ℤ) + ((23 : ℕ) : ℤ)).toNat) (BitVec.ofNat 23 m)
        else packComponents Format.binary32 s 0#8 (BitVec.ofNat 23 m)).toNat : ℤ) = _
      rw [h_bias]
      simp only [h_log]
      split
      next h_over =>
        -- The exponent field would be all ones or more: packed as infinity.
        have h_top : top ≤ (e + 149) * 2 ^ 23 + m := by
          unfold top
          omega
        rw [min_eq_right h_top]
        exact toNat_packedInfinity s
      next h_over =>
        have h_top : (e + 149) * 2 ^ 23 + m ≤ top := by
          unfold top
          omega
        rw [min_eq_left h_top]
        split
        · -- Packing drops the leading bit of the significand.
          rw [toNat_packComponents, BitVec.toNat_ofNat, BitVec.toNat_ofNat]
          omega
        · rw [toNat_packComponents, BitVec.toNat_ofNat, BitVec.toNat_ofNat]
          omega

/-! ## Unpacking -/

theorem exists_components (b : BitVec 32) : ∃ (s : Sign) (e : BitVec 8) (m : BitVec 23),
    b = packComponents Format.binary32 s e m := by
  refine ⟨if b.toNat < 2 ^ 31 then .positive else .negative, BitVec.ofNat 8 (b.toNat / 2 ^ 23),
    BitVec.ofNat 23 b.toNat, BitVec.eq_of_toNat_eq ?_⟩
  have h_lt := b.isLt
  zify
  rw [toNat_packComponents, BitVec.toNat_ofNat, BitVec.toNat_ofNat]
  split <;> simp only [signBit] <;> omega

theorem toNat_implicit {w : ℕ} (m : BitVec w) : (1#1 ++ m).toNat = 2 ^ w + m.toNat := by
  rw [BitVec.toNat_append, ← Nat.shiftLeft_add_eq_or_of_lt m.isLt, BitVec.toNat_ofNat,
    Nat.shiftLeft_eq]
  norm_num

theorem implicit_pos {w : ℕ} (m : BitVec w) : 0 < (1#1 ++ m).toNat := by
  rw [toNat_implicit]
  positivity

theorem unpackSign_packComponents (format : Format) (s : Sign) (e : BitVec format.exponentBits)
    (m : BitVec format.mantissaBitsWithoutImplicit) :
    Sign.ofBitVec (unpackSign (packComponents format s e m)) = s := by
  have h_sign : unpackSign (packComponents format s e m) = s.toBitVec := by
    refine BitVec.eq_of_getLsbD_eq fun i h_i => ?_
    obtain rfl : i = 0 := by omega
    show (((s.toBitVec ++ e ++ m).extractLsb _ _).cast _).getLsbD 0 = s.toBitVec.getLsbD 0
    simp [BitVec.getLsbD_append, BitVec.getElem_append]
  rw [h_sign]
  cases s <;> rfl

/-- Unpacking by the three fields. -/
theorem unpack_packComponents (format : Format) (s : Sign) (e : BitVec format.exponentBits)
    (m : BitVec format.mantissaBitsWithoutImplicit) :
    unpack format (packComponents format s e m)
      = if e = -1#_ then (if m = 0#_ then .infinity s else .notANumber)
        else if e = 0#_ then
          (if h : m = 0#_ then .zero s
          else .finite s m.toNat
            ((e.toNat : ℤ) - (format.exponentBias + format.mantissaBitsWithoutImplicit) + 1)
            (Nat.pos_of_ne_zero fun h_zero => h (BitVec.eq_of_toNat_eq h_zero)))
        else .finite s (1#1 ++ m).toNat
          ((e.toNat : ℤ) - (format.exponentBias + format.mantissaBitsWithoutImplicit))
          (implicit_pos m) := by
  generalize h_b : packComponents format s e m = b
  have h_m : unpackMantissa b = m := h_b ▸ unpackMantissa_packComponents
  have h_e : unpackExponent b = e := h_b ▸ unpackExponent_packComponents
  have h_s : Sign.ofBitVec (unpackSign b) = s := h_b ▸ unpackSign_packComponents format s e m
  subst h_m h_e h_s
  rfl

/-- Every bit pattern is NaN or a number whose position can be read off its bits. -/
theorem unpack_cases (b : BitVec 32) :
    (unpack Format.binary32 b = .notANumber ∧ top < (b.toNat % 2 ^ 31 : ℕ)) ∨
      ∃ s n, Stored s n (unpack Format.binary32 b) ∧ (b.toNat : ℤ) = signBit s * 2 ^ 31 + n := by
  rw [Int.natCast_mod]
  obtain ⟨s, e, m, rfl⟩ := exists_components b
  have h_e : e.toNat < 2 ^ 8 := e.isLt
  have h_m : m.toNat < 2 ^ 23 := m.isLt
  rw [toNat_packComponents, unpack_packComponents]
  -- The exponent field tells infinity and NaN, zero and subnormals, and normals apart.
  by_cases h_max : e = -1#8
  · rw [if_pos h_max]
    by_cases h_zero : m = 0#23
    · rw [if_pos h_zero]
      refine .inr ⟨s, top, .infinity, ?_⟩
      subst h_max h_zero
      simp [top]
    · rw [if_neg h_zero]
      have h_pos : m.toNat ≠ 0 := fun h => h_zero (BitVec.eq_of_toNat_eq h)
      have h_e_max : e.toNat = 255 := by rw [h_max]; rfl
      refine .inl ⟨rfl, ?_⟩
      unfold top
      omega
  · rw [if_neg h_max]
    right
    have h_e_max : e.toNat ≠ 255 := fun h => h_max (BitVec.eq_of_toNat_eq h)
    by_cases h_min : e = 0#8
    · rw [if_pos h_min]
      subst h_min
      by_cases h_zero : m = 0#23
      · rw [dif_pos h_zero]
        refine ⟨s, 0, .finite .zero (by decide), ?_⟩
        subst h_zero
        simp
      · rw [dif_neg h_zero]
        have h_pos : m.toNat ≠ 0 := fun h => h_zero (BitVec.eq_of_toNat_eq h)
        have h_placed := Placed.finite (s := s) m.toNat (-149) (by omega) (by omega)
          (by omega) (.inr rfl)
        exact ⟨s, _, .finite h_placed (by unfold top; omega), by simp⟩
    · rw [if_neg h_min]
      have h_e_min : e.toNat ≠ 0 := fun h => h_min (BitVec.eq_of_toNat_eq h)
      have h_implicit := toNat_implicit m
      have h_placed := Placed.finite (s := s) (1#1 ++ m).toNat
        ((e.toNat : ℤ) - ((127 : ℕ) + (23 : ℕ))) (by omega) (by omega) (by omega) (.inl (by omega))
      refine ⟨s, _, .finite h_placed (by unfold top; omega), ?_⟩
      rw [h_implicit]
      push_cast
      ring

/-! ## Ordinals -/

/-- The signed position of a number.  Only those of NaNs are beyond `top`. -/
def ordinal (x : Float32) : ℤ :=
  if x.toBits.toNat < 2 ^ 31 then x.toBits.toNat else 2 ^ 31 - x.toBits.toNat

theorem ordinal_of_toBits {x : Float32} {s : Sign} {n : ℤ} (h_nonneg : 0 ≤ n)
    (h_top : n ≤ top) (h : (x.toBits.toNat : ℤ) = signBit s * 2 ^ 31 + n) :
    ordinal x = s.apply n := by
  unfold top at h_top
  unfold ordinal
  cases s <;> simp only [signBit, Sign.apply] at h ⊢ <;> split <;> omega

theorem toBits_pack {s : Sign} {n : ℤ} {f : UnpackedFloat} (h : Placed s n f) :
    ((Float32.ofModel (.pack f)).toBits.toNat : ℤ) = signBit s * 2 ^ 31 + min n top :=
  toNat_pack h

theorem toBits_pack_infinity (s : Sign) :
    ((Float32.ofModel (.pack (.infinity s))).toBits.toNat : ℤ) = signBit s * 2 ^ 31 + top :=
  toNat_packedInfinity s

theorem ordinal_pack {s : Sign} {v : ℚ} {f : UnpackedFloat} (h : Rounds s v f) :
    ordinal (.ofModel (.pack f)) = rounded v := by
  obtain ⟨n, h_placed, h_position⟩ := h
  rw [← h_position]
  have h_nonneg := h_placed.nonneg
  exact ordinal_of_toBits (le_min h_nonneg (by decide)) (min_le_right _ _) (toBits_pack h_placed)

theorem ordinal_pack_infinity (s : Sign) :
    ordinal (.ofModel (.pack (.infinity s))) = s.apply top :=
  ordinal_of_toBits (by decide) le_rfl (toBits_pack_infinity s)

theorem abs_apply (s : Sign) (n : ℤ) : |s.apply n| = |n| := by
  cases s
  · exact abs_neg n
  · rfl

theorem exists_stored {x : Float32} (h : |ordinal x| ≤ top) :
    ∃ s n, Stored s n x.toModel.unpack ∧ ordinal x = s.apply n
      ∧ (x.toBits.toNat : ℤ) = signBit s * 2 ^ 31 + n := by
  rcases unpack_cases x.toModel.toBits.toBitVec with ⟨_, h_nan⟩ | ⟨s, n, h_stored, h_bits⟩
  · -- The bits of a NaN are out of range.
    have h_bits : top < ((x.toBits.toNat : ℤ) % 2 ^ 31) := by exact_mod_cast h_nan
    rw [abs_le] at h
    unfold ordinal at h
    split at h <;> omega
  · exact ⟨s, n, h_stored, ordinal_of_toBits h_stored.nonneg h_stored.le_top h_bits, h_bits⟩

theorem exists_placed {x : Float32} (h : |ordinal x| < top) :
    ∃ s n, Placed s n x.toModel.unpack ∧ n < top ∧ ordinal x = s.apply n := by
  obtain ⟨s, n, h_stored, h_ordinal, _⟩ := exists_stored h.le
  rw [h_ordinal, abs_apply, abs_of_nonneg h_stored.nonneg] at h
  exact ⟨s, n, h_stored.placed_of_lt h, h, h_ordinal⟩

theorem isFinite_iff (x : Float32) : x.isFinite = true ↔ |ordinal x| < top := by
  show x.toModel.unpack.isFinite = true ↔ _
  rcases unpack_cases x.toModel.toBits.toBitVec with ⟨h_nan, h_bits⟩ | ⟨s, n, h_stored, h_bits⟩
  · refine iff_of_false ?_ ?_
    · rw [Float32.Model.unpack, h_nan]
      decide
    · intro h
      obtain ⟨s, n, h_stored, _⟩ := exists_stored h.le
      rw [Float32.Model.unpack, h_nan] at h_stored
      cases h_stored with
      | finite placed => cases placed
  · rw [ordinal_of_toBits h_stored.nonneg h_stored.le_top h_bits, abs_apply,
      abs_of_nonneg h_stored.nonneg]
    exact h_stored.isFinite_iff

/-- A bit pattern out of the range of numbers is read as NaN. -/
theorem unpack_eq_notANumber {x : Float32} (h : top < |ordinal x|) :
    x.toModel.unpack = .notANumber := by
  rcases unpack_cases x.toModel.toBits.toBitVec with ⟨h_nan, -⟩ | ⟨s, n, h_stored, h_bits⟩
  · exact h_nan
  · rw [ordinal_of_toBits h_stored.nonneg h_stored.le_top h_bits, abs_apply,
      abs_of_nonneg h_stored.nonneg] at h
    exact absurd h_stored.le_top (not_le.mpr h)

theorem isNaN_iff (x : Float32) : x.isNaN = true ↔ top < |ordinal x| := by
  show x.toModel.unpack.isNaN = true ↔ _
  rcases lt_or_ge top |ordinal x| with h | h
  · rw [unpack_eq_notANumber h]
    exact iff_of_true rfl h
  · obtain ⟨s, n, h_stored, -⟩ := exists_stored h
    rw [h_stored.isNaN_eq]
    exact iff_of_false Bool.false_ne_true h.not_gt

theorem isInf_iff (x : Float32) : x.isInf = true ↔ |ordinal x| = top := by
  show x.toModel.unpack.isInf = true ↔ _
  rcases lt_or_ge top |ordinal x| with h | h
  · rw [unpack_eq_notANumber h]
    exact iff_of_false Bool.false_ne_true h.ne'
  · obtain ⟨s, n, h_stored, h_ordinal, -⟩ := exists_stored h
    rw [h_ordinal, abs_apply, abs_of_nonneg h_stored.nonneg]
    exact h_stored.isInf_iff

/-! ## Values -/

/-- The rational a finite number is. -/
def value (x : Float32) : ℚ := unpackedValue x.toModel.unpack

theorem rounded_value {x : Float32} (h : |ordinal x| < top) : rounded (value x) = ordinal x := by
  obtain ⟨s, n, h_placed, h_lt, h_ordinal⟩ := exists_placed h
  rw [h_ordinal, value, h_placed.rounded_value, min_eq_left h_lt.le]

theorem value_eq_of_ordinal_eq {x y : Float32} (hx : |ordinal x| < top)
    (h : ordinal x = ordinal y) : value x = value y := by
  obtain ⟨s, n, h_placed, _, h_ordinal⟩ := exists_placed hx
  obtain ⟨t, k, h_placed', _, h_ordinal'⟩ := exists_placed (h ▸ hx)
  have h_nonneg := h_placed.nonneg
  have h_nonneg' := h_placed'.nonneg
  rw [h_ordinal, h_ordinal'] at h
  rw [value, value, h_placed.value_eq, h_placed'.value_eq]
  cases s <;> cases t <;> simp only [Sign.apply] at h ⊢
  · rw [neg_inj.mp h]
  · -- Numbers of different sign share a position only at zero.
    obtain ⟨rfl, rfl⟩ : n = 0 ∧ k = 0 := by omega
    rw [valueAt_zero, mul_zero, mul_zero]
  · obtain ⟨rfl, rfl⟩ : n = 0 ∧ k = 0 := by omega
    rw [valueAt_zero, mul_zero, mul_zero]
  · rw [h]

theorem abs_value {x : Float32} (h : |ordinal x| < top) : |value x| = valueAt |ordinal x| := by
  obtain ⟨s, n, h_placed, _, h_ordinal⟩ := exists_placed h
  have h_nonneg := h_placed.nonneg
  rw [value, h_placed.value_eq, h_ordinal, abs_apply, abs_of_nonneg h_nonneg, abs_mul,
    abs_of_nonneg (valueAt_nonneg h_nonneg), ← Int.cast_abs, abs_apply]
  norm_num

theorem value_le_value_iff {x y : Float32} (hx : |ordinal x| < top) (hy : |ordinal y| < top) :
    value x ≤ value y ↔ ordinal x ≤ ordinal y := by
  constructor
  · intro h
    rw [← rounded_value hx, ← rounded_value hy]
    exact rounded_mono h
  · intro h
    -- Were the values the other way round, the ordinals would be equal, and so the values.
    by_contra h_not
    have h_le := rounded_mono (not_le.mp h_not).le
    rw [rounded_value hx, rounded_value hy] at h_le
    exact h_not (value_eq_of_ordinal_eq hx (le_antisymm h h_le)).le

theorem abs_value_le_of_abs_ordinal_le {x y : Float32} (hx : |ordinal x| < top)
    (hy : |ordinal y| < top) (h : |ordinal x| ≤ |ordinal y|) : |value x| ≤ |value y| := by
  by_contra h_not
  have h_le := rounded_mono (not_le.mp h_not).le
  rw [rounded_abs, rounded_abs, rounded_value hx, rounded_value hy] at h_le
  refine h_not (le_of_eq ?_)
  rw [abs_value hx, abs_value hy, le_antisymm h h_le]

/-! ## Comparisons -/

theorem compare_position {m m' : ℕ} {e e' : ℤ} (h_lt : m < 2 ^ 24) (h_lt' : m' < 2 ^ 24)
    (h_exp : -149 ≤ e) (h_exp' : -149 ≤ e') (h_normal : 2 ^ 23 ≤ m ∨ e = -149)
    (h_normal' : 2 ^ 23 ≤ m' ∨ e' = -149) :
    (compare e e').then (compare m m')
      = compare ((e + 149) * 2 ^ 23 + m) ((e' + 149) * 2 ^ 23 + m') := by
  -- A larger exponent means a normal number, which is past all those of smaller exponents.
  rcases lt_trichotomy e e' with h | rfl | h
  · have h_position : (e + 149) * 2 ^ 23 + (m : ℤ) < (e' + 149) * 2 ^ 23 + m' := by omega
    rw [compare_lt_iff_lt.mpr h, compare_lt_iff_lt.mpr h_position]
    rfl
  · rw [compare_eq_iff_eq.mpr rfl, Ordering.eq_then]
    rcases lt_trichotomy m m' with h_m | rfl | h_m
    · rw [compare_lt_iff_lt.mpr h_m, compare_lt_iff_lt.mpr (by omega)]
    · rw [compare_eq_iff_eq.mpr rfl, compare_eq_iff_eq.mpr rfl]
    · rw [compare_gt_iff_gt.mpr h_m, compare_gt_iff_gt.mpr (by omega)]
  · have h_position : (e' + 149) * 2 ^ 23 + (m' : ℤ) < (e + 149) * 2 ^ 23 + m := by omega
    rw [compare_gt_iff_gt.mpr h, compare_gt_iff_gt.mpr h_position]
    rfl

theorem compare_neg_swap (a b : ℤ) : (compare a b).swap = compare (-a) (-b) := by
  rcases lt_trichotomy a b with h | rfl | h
  · rw [compare_lt_iff_lt.mpr h, compare_gt_iff_gt.mpr (neg_lt_neg h)]
    rfl
  · rw [compare_eq_iff_eq.mpr rfl, compare_eq_iff_eq.mpr rfl]
    rfl
  · rw [compare_gt_iff_gt.mpr h, compare_lt_iff_lt.mpr (neg_lt_neg h)]
    rfl

theorem Placed.compare_eq {s t : Sign} {n k : ℤ} {f g : UnpackedFloat} (hf : Placed s n f)
    (hg : Placed t k g) : f.compare g = some (compare (s.apply n) (t.apply k)) := by
  cases hf with
  | zero =>
      cases hg with
      | zero => cases s <;> cases t <;> rfl
      | finite m e hm h_lt h_exp =>
          cases t with
          | negative =>
              have h : -((e + 149) * 2 ^ 23 + m) < s.apply 0 := by
                cases s <;> simp only [Sign.apply] <;> omega
              exact congrArg some (compare_gt_iff_gt.mpr h).symm
          | positive =>
              have h : s.apply 0 < (e + 149) * 2 ^ 23 + m := by
                cases s <;> simp only [Sign.apply] <;> omega
              exact congrArg some (compare_lt_iff_lt.mpr h).symm
  | finite m e hm h_lt h_exp h_normal =>
      cases hg with
      | zero =>
          cases s with
          | negative =>
              have h : -((e + 149) * 2 ^ 23 + m) < t.apply 0 := by
                cases t <;> simp only [Sign.apply] <;> omega
              exact congrArg some (compare_lt_iff_lt.mpr h).symm
          | positive =>
              have h : t.apply 0 < (e + 149) * 2 ^ 23 + m := by
                cases t <;> simp only [Sign.apply] <;> omega
              exact congrArg some (compare_gt_iff_gt.mpr h).symm
      | finite m' e' hm' h_lt' h_exp' h_normal' =>
          have h_compare := compare_position h_lt h_lt' h_exp h_exp' h_normal h_normal'
          -- Two negative numbers compare the other way round.
          cases s <;> cases t
          · show some ((compare e e').then (compare m m')).swap = _
            rw [h_compare, compare_neg_swap]
            rfl
          · have h : -((e + 149) * 2 ^ 23 + m) < (e' + 149) * 2 ^ 23 + m' := by omega
            exact congrArg some (compare_lt_iff_lt.mpr h).symm
          · have h : -((e' + 149) * 2 ^ 23 + m') < (e + 149) * 2 ^ 23 + m := by omega
            exact congrArg some (compare_gt_iff_gt.mpr h).symm
          · exact congrArg some h_compare

/-- Numbers compare as their positions do. -/
theorem Stored.compare_eq {s t : Sign} {n k : ℤ} {f g : UnpackedFloat} (hf : Stored s n f)
    (hg : Stored t k g) : f.compare g = some (compare (s.apply n) (t.apply k)) := by
  cases hf with
  | infinity =>
      cases hg with
      | infinity => cases s <;> cases t <;> rfl
      | finite hg h_lt =>
          have h_nonneg := hg.nonneg
          cases s with
          | negative =>
              have h : -top < t.apply k := by cases t <;> simp only [Sign.apply] <;> omega
              cases hg <;> exact congrArg some (compare_lt_iff_lt.mpr h).symm
          | positive =>
              have h : t.apply k < top := by cases t <;> simp only [Sign.apply] <;> omega
              cases hg <;> exact congrArg some (compare_gt_iff_gt.mpr h).symm
  | finite hf h_lt =>
      cases hg with
      | infinity =>
          have h_nonneg := hf.nonneg
          cases t with
          | negative =>
              have h : -top < s.apply n := by cases s <;> simp only [Sign.apply] <;> omega
              cases hf <;> exact congrArg some (compare_gt_iff_gt.mpr h).symm
          | positive =>
              have h : s.apply n < top := by cases s <;> simp only [Sign.apply] <;> omega
              cases hf <;> exact congrArg some (compare_lt_iff_lt.mpr h).symm
      | finite hg _ => exact hf.compare_eq hg

theorem compare_ordinal {x y : Float32} (hx : |ordinal x| ≤ top) (hy : |ordinal y| ≤ top) :
    x.toModel.compare y.toModel = some (compare (ordinal x) (ordinal y)) := by
  obtain ⟨s, n, h_stored, h_ordinal, _⟩ := exists_stored hx
  obtain ⟨t, k, h_stored', h_ordinal', _⟩ := exists_stored hy
  rw [h_ordinal, h_ordinal']
  exact h_stored.compare_eq h_stored'

theorem lt_iff_ordinal {x y : Float32} (hx : |ordinal x| ≤ top) (hy : |ordinal y| ≤ top) :
    x < y ↔ ordinal x < ordinal y := by
  -- The comparison operators are decided in two layers.
  have h_lt : x < y ↔ (x.toModel.compare y.toModel == some .lt) = true := by
    show decide ((x.toModel.compare y.toModel == some .lt) = true) = true ↔ _
    rw [decide_eq_true_eq]
  rw [h_lt, compare_ordinal hx hy, beq_iff_eq, Option.some_inj, compare_lt_iff_lt]

theorem le_iff_ordinal {x y : Float32} (hx : |ordinal x| ≤ top) (hy : |ordinal y| ≤ top) :
    x ≤ y ↔ ordinal x ≤ ordinal y := by
  have h_le : x ≤ y ↔ (x.toModel.compare y.toModel).any (·.isLE) = true := by
    show decide ((x.toModel.compare y.toModel).any (·.isLE) = true) = true ↔ _
    rw [decide_eq_true_eq]
  rw [h_le, compare_ordinal hx hy, Option.any_some, Ordering.isLE_iff_ne_gt, compare_gt_iff_gt,
    not_lt]

theorem beq_iff_ordinal {x y : Float32} (hx : |ordinal x| ≤ top) (hy : |ordinal y| ≤ top) :
    (x == y) = true ↔ ordinal x = ordinal y := by
  have h_beq : (x == y) = true ↔ (x.toModel.compare y.toModel == some .eq) = true := Iff.rfl
  rw [h_beq, compare_ordinal hx hy, beq_iff_eq, Option.some_inj, compare_eq_iff_eq]

/-- The total order ranks a negative zero below a positive one, and keeps the order of all other
    numbers. -/
theorem ordinal_le_of_totalLe {x y : Float32} (h : totalLe x y = true) :
    ordinal x ≤ ordinal y := by
  unfold totalLe orderKey at h
  unfold ordinal
  rw [decide_eq_true_eq] at h
  dsimp only at h
  split at h <;> split at h <;> split <;> split <;> omega

/-- Of two numbers that are not equal the one ranked first is smaller. -/
theorem lt_of_totalLe {x y : Float32} (hx : |ordinal x| ≤ top) (hy : |ordinal y| ≤ top)
    (h : totalLe x y = true) (h_ne : (x == y) = false) : x < y := by
  rw [lt_iff_ordinal hx hy]
  refine lt_of_le_of_ne (ordinal_le_of_totalLe h) fun h_eq => ?_
  rw [(beq_iff_ordinal hx hy).mpr h_eq] at h_ne
  cases h_ne

/-- Only numbers compare. -/
theorem abs_ordinal_le_of_compare {x y : Float32} {o : Ordering}
    (h : x.toModel.compare y.toModel = some o) : |ordinal x| ≤ top ∧ |ordinal y| ≤ top := by
  have h_unpack : x.toModel.unpack.compare y.toModel.unpack = some o := h
  constructor
  · refine not_lt.mp fun h_nan => ?_
    rw [unpack_eq_notANumber h_nan] at h_unpack
    cases h_unpack
  · refine not_lt.mp fun h_nan => ?_
    rw [unpack_eq_notANumber h_nan] at h_unpack
    cases h_left : x.toModel.unpack <;> rw [h_left] at h_unpack <;> cases h_unpack

theorem beq_symm {x y : Float32} (h : (x == y) = true) : (y == x) = true := by
  have h_compare : (x.toModel.compare y.toModel == some .eq) = true := h
  obtain ⟨hx, hy⟩ := abs_ordinal_le_of_compare (beq_iff_eq.mp h_compare)
  exact (beq_iff_ordinal hy hx).mpr ((beq_iff_ordinal hx hy).mp h).symm

theorem abs_ordinal_le_of_lt {x y : Float32} (h : x < y) :
    |ordinal x| ≤ top ∧ |ordinal y| ≤ top := by
  have h_lt : decide ((x.toModel.compare y.toModel == some .lt) = true) = true := h
  rw [decide_eq_true_eq, beq_iff_eq] at h_lt
  exact abs_ordinal_le_of_compare h_lt

theorem abs_ordinal_le_of_le {x y : Float32} (h : x ≤ y) :
    |ordinal x| ≤ top ∧ |ordinal y| ≤ top := by
  have h_le : decide ((x.toModel.compare y.toModel).any (·.isLE) = true) = true := h
  rw [decide_eq_true_eq, Option.any_eq_true] at h_le
  obtain ⟨o, h_compare, -⟩ := h_le
  exact abs_ordinal_le_of_compare h_compare

theorem isNaN_eq_false_of_lt {x y : Float32} (h : x < y) : y.isNaN = false := by
  rw [Bool.eq_false_iff, Ne, isNaN_iff]
  exact (abs_ordinal_le_of_lt h).2.not_gt

theorem le_trans_ordinal {x y z : Float32} (h : x ≤ y) (h' : y ≤ z) : x ≤ z := by
  obtain ⟨hx, hy⟩ := abs_ordinal_le_of_le h
  obtain ⟨-, hz⟩ := abs_ordinal_le_of_le h'
  rw [le_iff_ordinal hx hy] at h
  rw [le_iff_ordinal hy hz] at h'
  exact (le_iff_ordinal hx hz).mpr (h.trans h')

theorem not_lt_of_lt_ordinal {x y : Float32} (h : x < y) : ¬y < x := by
  obtain ⟨hx, hy⟩ := abs_ordinal_le_of_lt h
  rw [lt_iff_ordinal hx hy] at h
  rw [lt_iff_ordinal hy hx]
  exact h.not_gt

theorem lt_of_le_of_lt_ordinal {x y z : Float32} (h : x ≤ y) (h' : y < z) : x < z := by
  obtain ⟨hx, hy⟩ := abs_ordinal_le_of_le h
  obtain ⟨-, hz⟩ := abs_ordinal_le_of_lt h'
  rw [le_iff_ordinal hx hy] at h
  rw [lt_iff_ordinal hy hz] at h'
  exact (lt_iff_ordinal hx hz).mpr (h.trans_lt h')

theorem not_lt_iff {x y : Float32} (hx : |ordinal x| ≤ top) (hy : |ordinal y| ≤ top) :
    ¬x < y ↔ y ≤ x := by
  rw [lt_iff_ordinal hx hy, le_iff_ordinal hy hx, not_lt]

theorem ordinal_zero : ordinal 0.0 = 0 := by decide

theorem abs_ordinal_zero_le : |ordinal 0.0| ≤ top := by decide

theorem lt_zero_iff {x : Float32} (hx : |ordinal x| ≤ top) : x < 0.0 ↔ ordinal x < 0 := by
  rw [lt_iff_ordinal hx abs_ordinal_zero_le, ordinal_zero]

theorem zero_lt_iff {x : Float32} (hx : |ordinal x| ≤ top) : 0.0 < x ↔ 0 < ordinal x := by
  rw [lt_iff_ordinal abs_ordinal_zero_le hx, ordinal_zero]

/-! ## Magnitudes -/

/-- A number with a clear sign bit. -/
def IsMagnitude (x : Float32) : Prop := (x.toBits.toNat : ℤ) ≤ top

theorem IsMagnitude.ordinal_eq {x : Float32} (h : IsMagnitude x) :
    ordinal x = x.toBits.toNat := by
  unfold IsMagnitude top at h
  unfold ordinal
  rw [if_pos (by omega)]

theorem isMagnitude_of_ordinal_pos {x : Float32} (h : |ordinal x| ≤ top) (h_pos : 0 < ordinal x) :
    IsMagnitude x := by
  rw [abs_of_pos h_pos] at h
  unfold ordinal at h h_pos
  unfold IsMagnitude
  split at h <;> omega

theorem isMagnitude_zero : IsMagnitude 0.0 := by
  unfold IsMagnitude
  decide

theorem IsMagnitude.abs_ordinal_le {x : Float32} (h : IsMagnitude x) : |ordinal x| ≤ top := by
  rw [h.ordinal_eq, abs_of_nonneg (by omega)]
  exact h

theorem IsMagnitude.totalLe_iff {x y : Float32} (hx : IsMagnitude x) (hy : IsMagnitude y) :
    totalLe x y = true ↔ ordinal x ≤ ordinal y := by
  rw [hx.ordinal_eq, hy.ordinal_eq]
  unfold IsMagnitude top at hx hy
  unfold totalLe orderKey
  rw [decide_eq_true_eq, if_pos (by omega), if_pos (by omega)]

/-- A number is its bits and a proof about them. -/
theorem eq_of_toBits_eq {x y : Float32} (h : x.toBits.toNat = y.toBits.toNat) : x = y := by
  obtain ⟨⟨b, _⟩⟩ := x
  obtain ⟨⟨c, _⟩⟩ := y
  obtain rfl : b = c := UInt32.toNat_inj.mp h
  rfl

theorem orderKey_injective {x y : Float32} (h : orderKey x = orderKey y) : x = y := by
  refine eq_of_toBits_eq ?_
  unfold orderKey at h
  dsimp only at h
  split at h <;> split at h <;> omega

/-- Of the bit patterns that are read as NaN one is valid. -/
theorem toBits_eq_packedNaN {x : Float32}
    (h : top < (x.toModel.toBits.toBitVec.toNat % 2 ^ 31 : ℕ)) :
    x.toModel.toBits.toBitVec = packedNaN Format.binary32 := by
  have h_valid := x.toModel.valid.eq_packedNaN
  generalize x.toModel.toBits.toBitVec = b at h h_valid ⊢
  obtain ⟨s, e, m, rfl⟩ := exists_components b
  rw [unpackExponent_packComponents, unpackMantissa_packComponents] at h_valid
  rw [Int.natCast_mod, toNat_packComponents] at h
  unfold top at h
  have h_e : e.toNat < 2 ^ 8 := e.isLt
  have h_m : m.toNat < 2 ^ 23 := m.isLt
  -- Beyond `top` the exponent field is all ones, and the last field is not empty.
  refine h_valid (BitVec.eq_of_toNat_eq (y := -1#8) ?_) fun h_zero => ?_
  · show e.toNat = 255
    omega
  · rw [h_zero, BitVec.toNat_ofNat] at h
    omega

/-- Unpacking a number and packing it again changes nothing. -/
theorem pack_unpack (x : Float32) : Float32.ofModel (.pack x.toModel.unpack) = x := by
  refine eq_of_toBits_eq ?_
  rcases unpack_cases x.toModel.toBits.toBitVec with ⟨h_nan, h_bits⟩ | ⟨s, n, h_stored, h_bits⟩
  · have h_unpack : x.toModel.unpack = .notANumber := h_nan
    rw [h_unpack]
    exact congrArg BitVec.toNat (toBits_eq_packedNaN h_bits).symm
  · have h_number : (x.toBits.toNat : ℤ) = signBit s * 2 ^ 31 + n := h_bits
    have h_unpack : Stored s n x.toModel.unpack := h_stored
    zify
    rw [h_number]
    generalize x.toModel.unpack = f at h_unpack
    cases h_unpack with
    | infinity => exact toBits_pack_infinity s
    | finite h_placed h_lt => rw [toBits_pack h_placed, min_eq_left h_lt.le]

theorem IsMagnitude.exists_stored {x : Float32} (h : IsMagnitude x) :
    ∃ n, Stored .positive n x.toModel.unpack ∧ ordinal x = n := by
  obtain ⟨s, n, h_stored, h_ordinal, h_bits⟩ := Binary32.exists_stored h.abs_ordinal_le
  have h_nonneg := h_stored.nonneg
  cases s with
  | negative =>
      unfold IsMagnitude top at h
      simp only [signBit] at h_bits
      omega
  | positive => exact ⟨n, h_stored, h_ordinal⟩

theorem isMagnitude_pack {v : ℚ} {f : UnpackedFloat} (h : Rounds .positive v f) :
    IsMagnitude (.ofModel (.pack f)) := by
  obtain ⟨n, h_placed, _⟩ := h
  have h_bits := toBits_pack h_placed
  rw [IsMagnitude, h_bits]
  simp [signBit]

theorem isMagnitude_pack_infinity : IsMagnitude (.ofModel (.pack (.infinity .positive))) := by
  have h_bits := toBits_pack_infinity .positive
  rw [IsMagnitude, h_bits]
  simp [signBit]

end Verdure.Binary32
