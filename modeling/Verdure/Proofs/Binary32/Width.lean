/-
  Verdure.Proofs.Binary32.Width

  Widening loses nothing.

  A binary32 number fits the significands and the exponents of binary64 with room to spare.
  Its significand is only padded to the full length there (`round_binary64`), so that narrowing
  meets the same rational again and finds the number it was.
-/
import Verdure.Binary32.Width
import Verdure.Proofs.Binary32.Ordinal

namespace Verdure.Binary32

open Float.Model (Format UnpackedFloat totalExponent)
open Float.Model.UnpackedFloat

/-! ## Full significands -/

/-- The significand has all its 53 bits, and the exponent is in the range of normal numbers. -/
structure Full (m : ℕ) (e : ℤ) : Prop where
  log : m.log2 = 52
  least : -1074 ≤ e
  greatest : e ≤ 971

theorem Full.pos {m : ℕ} {e : ℤ} (h : Full m e) : 0 < m := by
  rcases m.eq_zero_or_pos with rfl | h_pos
  · exact absurd h.log (by decide)
  · exact h_pos

theorem Full.bounds {m : ℕ} {e : ℤ} (h : Full m e) : 2 ^ 52 ≤ m ∧ m < 2 ^ 53 :=
  (Nat.log2_eq_iff h.pos.ne').mp h.log

/-- Full significands stay as they are. -/
theorem Full.roundWithAccuracy_eq {m : ℕ} {e : ℤ} (h : Full m e) (s : Sign) :
    roundWithAccuracy Format.binary64 s m e .exact = .finite s m e h.pos := by
  have h_target : Format.binary64.targetExponent (totalExponent m e) = e := by
    show max ((m.log2 + 1 + e : ℤ) - (1 + 52 : ℕ)) (3 - 2 ^ 10 - (1 + 52 : ℕ)) = e
    have := h.least
    rw [h.log]
    omega
  have h_shift : shiftToTargetExponent Format.binary64 m e .exact = (⟨m, false, false⟩, e) := by
    rw [shiftToTargetExponent, h_target]
    exact shiftToExponent_of_le le_rfl
  have h_rounded : (ExtendedMantissa.mk m false false).roundedMantissa = m := rfl
  unfold roundWithAccuracy
  rw [h_shift]
  dsimp only
  rw [h_rounded, h_shift]
  dsimp only
  rw [dif_neg h.pos.ne']

theorem finite_congr (s : Sign) {m m' : ℕ} {e e' : ℤ} (h_m : m = m') (h_e : e = e') (hm : 0 < m)
    (hm' : 0 < m') : UnpackedFloat.finite s m e hm = .finite s m' e' hm' := by
  subst h_m h_e
  rfl

/-- The stored exponent is the exponent counted from `-1075`. -/
theorem Full.pack_eq {m b : ℕ} (h : Full m (b - 1075)) (s : Sign) :
    pack Format.binary64 (.finite s m (b - 1075) h.pos)
      = packComponents Format.binary64 s (BitVec.ofNat 11 b) (BitVec.ofNat 52 m) := by
  have h_greatest := h.greatest
  have h_biased : ((b : ℤ) - 1075 + ((1023 : ℕ) : ℤ) + ((52 : ℕ) : ℤ)).toNat = b := by omega
  show (if 2 ^ 11 ≤ ((b : ℤ) - 1075 + ((1023 : ℕ) : ℤ) + ((52 : ℕ) : ℤ)).toNat + 1 then _
    else if m.log2 + 1 = 53 then packComponents Format.binary64 s
      (BitVec.ofNat 11 ((b : ℤ) - 1075 + ((1023 : ℕ) : ℤ) + ((52 : ℕ) : ℤ)).toNat) _
    else _) = _
  rw [h_biased, if_neg (by omega), if_pos (by rw [h.log])]

/-- Full significands are stored without loss. -/
theorem Full.unpack_pack {m : ℕ} {e : ℤ} (h : Full m e) (s : Sign) :
    unpack Format.binary64 (pack Format.binary64 (.finite s m e h.pos))
      = .finite s m e h.pos := by
  have h_bounds := h.bounds
  have h_least := h.least
  have h_greatest := h.greatest
  obtain ⟨b, rfl⟩ : ∃ b : ℕ, e = b - 1075 := ⟨(e + 1075).toNat, by omega⟩
  have h_exponent : (BitVec.ofNat 11 b).toNat = b := by
    rw [BitVec.toNat_ofNat]
    omega
  -- The stored exponent is neither that of infinities nor that of zeros and subnormals.
  have h_max : BitVec.ofNat 11 b ≠ -1#11 := by
    intro h_eq
    have h_ones : (-1#11).toNat = 2047 := rfl
    rw [h_eq] at h_exponent
    omega
  have h_min : BitVec.ofNat 11 b ≠ 0#11 := by
    intro h_eq
    rw [h_eq, BitVec.toNat_ofNat] at h_exponent
    omega
  have h_mantissa : (1#1 ++ BitVec.ofNat 52 m).toNat = m := by
    rw [toNat_implicit, BitVec.toNat_ofNat]
    omega
  have h_bias : ((BitVec.ofNat 11 b).toNat : ℤ) - ((1023 : ℕ) + (52 : ℕ)) = b - 1075 := by
    rw [h_exponent]
    omega
  have h_unpack := unpack_packComponents Format.binary64 s (BitVec.ofNat 11 b) (BitVec.ofNat 52 m)
  rw [if_neg h_max, if_neg h_min] at h_unpack
  rw [h.pack_eq, h_unpack]
  exact finite_congr s h_mantissa h_bias _ _

/-! ## Widening -/

theorem log2_shiftLeft {m : ℕ} (hm : 0 < m) (k : ℕ) : (m <<< k).log2 = m.log2 + k := by
  induction k with
  | zero => rfl
  | succ k ih =>
      have h_pos : m <<< k ≠ 0 := by
        rw [Nat.shiftLeft_eq]
        positivity
      rw [Nat.shiftLeft_succ, Nat.log2_two_mul h_pos, ih, add_assoc]

/-- The significand of a binary32 number is padded to the full length. -/
theorem round_binary64 (s : Sign) {m : ℕ} {e : ℤ} (hm : 0 < m) (h_lt : m < 2 ^ 24)
    (h_least : -149 ≤ e) (h_greatest : e < 106) :
    ∃ (m' : ℕ) (e' : ℤ) (h : Full m' e'),
      UnpackedFloat.round Format.binary64 s m e = .finite s m' e' h.pos
        ∧ (m' : ℚ) * 2 ^ e' = m * 2 ^ e := by
  have h_log : m.log2 < 24 := (Nat.log2_lt hm.ne').mpr h_lt
  obtain ⟨k, h_k⟩ : ∃ k, m.log2 + k = 52 := ⟨52 - m.log2, by omega⟩
  have h_target : Format.binary64.targetExponent (totalExponent m e) = e - k := by
    show max ((m.log2 + 1 + e : ℤ) - (1 + 52 : ℕ)) (3 - 2 ^ 10 - (1 + 52 : ℕ)) = e - k
    omega
  have h_amount : (e - (e - k)).toNat = k := by omega
  have h_full : Full (m <<< k) (e - k) := by
    refine ⟨?_, by omega, by omega⟩
    rw [log2_shiftLeft hm, h_k]
  refine ⟨m <<< k, e - k, h_full, ?_, ?_⟩
  · rw [← h_full.roundWithAccuracy_eq]
    unfold UnpackedFloat.round decreaseExponent
    rw [h_target]
    dsimp only
    rw [h_amount]
  · rw [Nat.shiftLeft_eq, zpow_sub₀ (by norm_num), zpow_natCast]
    push_cast
    field_simp

/-- A number at a position is back at it after it was widened and stored. -/
theorem Placed.roundTo_widened {s : Sign} {n : ℤ} {f : UnpackedFloat} (h : Placed s n f)
    (h_lt : n < top) :
    Placed s n (roundTo .binary32
      (unpack Format.binary64 (pack Format.binary64 (roundTo .binary64 f)))) := by
  cases h with
  | zero =>
      have h_zero : roundTo .binary32 (unpack Format.binary64
          (pack Format.binary64 (roundTo .binary64 (.zero s)))) = .zero s := by
        cases s <;> rfl
      rw [h_zero]
      exact .zero
  | finite m e hm h_m h_exp h_normal =>
      have h_greatest : e < 106 := by
        unfold top at h_lt
        omega
      obtain ⟨m', e', h_full, h_round, h_value⟩ := round_binary64 s hm h_m h_exp h_greatest
      -- Rounding depends on the rational alone, and this one is at its place already.
      have h_placed := placed_round s h_full.pos e'
      rw [h_value, magnitude_canonical hm h_m h_exp h_normal] at h_placed
      have h_widened : roundTo .binary64 (.finite s m e hm) = .finite s m' e' h_full.pos := h_round
      rw [h_widened, h_full.unpack_pack]
      exact h_placed

/-- **Widening loses nothing.**  A finite number that is widened and narrowed again is the same
    number, the sign of zero included. -/
theorem narrow_widen {x : Float32} (h : x.isFinite = true) : narrow (widen x) = x := by
  have h_finite := (isFinite_iff x).mp h
  obtain ⟨s, n, h_stored, h_ordinal, h_bits⟩ := exists_stored h_finite.le
  rw [h_ordinal, abs_apply, abs_of_nonneg h_stored.nonneg] at h_finite
  have h_pack := toBits_pack ((h_stored.placed_of_lt h_finite).roundTo_widened h_finite)
  rw [min_eq_left h_finite.le, ← h_bits] at h_pack
  have h_key : orderKey (narrow (widen x)) = orderKey x := by
    unfold orderKey
    rw [show (narrow (widen x)).toBits.toNat = x.toBits.toNat from Int.ofNat_inj.mp h_pack]
  exact orderKey_injective h_key

end Verdure.Binary32
