/-
  Verdure.Proofs.Binary32.Rounding

  Rounding as a function on the rationals.

  Arithmetic rounds by shifting a significand to the right while a round bit and a sticky
  bit remember what was shifted out.  `StandsFor` says which rational such an extended
  significand is read as, and its rounded significand is that rational rounded to the
  nearest integer.

  `rounded v` then is the position, among all binary32 numbers counted outward from zero,
  of the number that `v` is rounded to.  Positions are integers in which a carry out of the
  significand needs no case of its own, so that rounding is monotone (`rounded_mono`) by
  comparing exponents and significands alone.
-/
import Verdure.Binary32.Basic
import Mathlib.Algebra.Order.Field.Power
import Mathlib.Algebra.Order.Floor.Ring
import Mathlib.Data.Int.Log
import Mathlib.Data.Rat.Floor
import Mathlib.Tactic.Linarith
import Mathlib.Tactic.NormNum
import Mathlib.Tactic.Positivity
import Mathlib.Tactic.Ring

namespace Verdure.Binary32

open Float.Model (Format)
open Float.Model.UnpackedFloat

/-! ## To integers -/

/-- The integer nearest to a rational, the even one of two that are equally near. -/
def roundHalfEven (q : ℚ) : ℤ :=
  if Int.fract q < 1 / 2 then ⌊q⌋
  else if Int.fract q = 1 / 2 then ⌊q⌋ + ⌊q⌋ % 2
  else ⌊q⌋ + 1

theorem roundHalfEven_intCast (n : ℤ) : roundHalfEven n = n := by
  simp [roundHalfEven]

theorem floor_le_roundHalfEven (q : ℚ) : ⌊q⌋ ≤ roundHalfEven q := by
  unfold roundHalfEven
  split
  · exact le_rfl
  · split <;> omega

theorem roundHalfEven_le (q : ℚ) : roundHalfEven q ≤ ⌊q⌋ + 1 := by
  unfold roundHalfEven
  split
  · omega
  · split <;> omega

theorem roundHalfEven_mono {q r : ℚ} (h : q ≤ r) : roundHalfEven q ≤ roundHalfEven r := by
  rcases (Int.floor_le_floor h).lt_or_eq with h_lt | h_eq
  · -- A whole unit apart, the roundings can at most meet.
    have h_q := roundHalfEven_le q
    have h_r := floor_le_roundHalfEven r
    omega
  · -- Within one unit the fractional parts decide.
    have h_fract : Int.fract q ≤ Int.fract r := by
      rw [Int.fract, Int.fract, h_eq]
      linarith
    unfold roundHalfEven
    rw [h_eq]
    by_cases h_q : Int.fract q < 1 / 2
    · rw [if_pos h_q]
      split
      · exact le_rfl
      · split <;> omega
    · have h_r : ¬Int.fract r < 1 / 2 := by linarith
      rw [if_neg h_q, if_neg h_r]
      by_cases h_tie : Int.fract r = 1 / 2
      · have h_tie_q : Int.fract q = 1 / 2 := by linarith
        rw [if_pos h_tie, if_pos h_tie_q]
      · rw [if_neg h_tie]
        split <;> omega

/-! ## Extended significands -/

/-- The rational an extended significand stands for, as far as rounding can tell. -/
structure StandsFor (em : ExtendedMantissa) (q : ℚ) : Prop where
  mantissa : (em.mantissa : ℤ) = ⌊q⌋
  roundBit : em.roundBit = true ↔ 1 / 2 ≤ Int.fract q
  stickyBit : em.stickyBit = true ↔ Int.fract q ≠ 0 ∧ Int.fract q ≠ 1 / 2

theorem standsFor_ofMantissa (m : ℕ) :
    StandsFor (ExtendedMantissa.ofMantissaAndAccuracy m .exact) m := by
  refine ⟨?_, ?_, ?_⟩
  · simp [ExtendedMantissa.ofMantissaAndAccuracy]
  · simp [ExtendedMantissa.ofMantissaAndAccuracy]
  · simp [ExtendedMantissa.ofMantissaAndAccuracy]

/-- The accuracy of a significand only sets the bits that follow it. -/
theorem StandsFor.floor_eq_of_ofMantissa {m : ℕ} {a : Accuracy} {q : ℚ}
    (h : StandsFor (ExtendedMantissa.ofMantissaAndAccuracy m a) q) : (m : ℤ) = ⌊q⌋ := by
  rw [← h.mantissa]
  cases a with
  | exact => rfl
  | inexact o => cases o <;> rfl

/-- Half of a rational: its integral and its fractional part. -/
theorem floor_fract_half (q : ℚ) :
    ⌊q / 2⌋ = ⌊q⌋ / 2 ∧ Int.fract (q / 2) = ((⌊q⌋ % 2 : ℤ) + Int.fract q) / 2 := by
  have h_floor : ⌊q / 2⌋ = ⌊q⌋ / 2 := by
    have := Int.floor_div_natCast q 2
    exact_mod_cast this
  have h_split : ((⌊q⌋ : ℤ) : ℚ) = 2 * ((⌊q⌋ / 2 : ℤ) : ℚ) + ((⌊q⌋ % 2 : ℤ) : ℚ) := by
    have := Int.mul_ediv_add_emod ⌊q⌋ 2
    exact_mod_cast this.symm
  refine ⟨h_floor, ?_⟩
  rw [Int.fract, h_floor, Int.fract]
  linarith

theorem StandsFor.shiftRightOne {em : ExtendedMantissa} {q : ℚ} (h : StandsFor em q) :
    StandsFor em.shiftRightOne (q / 2) := by
  obtain ⟨h_mantissa, h_round, h_sticky⟩ := h
  obtain ⟨h_floor, h_fract⟩ := floor_fract_half q
  have h_nonneg := Int.fract_nonneg q
  have h_lt := Int.fract_lt_one q
  have h_bit : em.mantissa % 2 ≠ 0 ↔ ⌊q⌋ % 2 = 1 := by omega
  -- Some bit was set exactly if `q` was not an integer.
  have h_any : (1 / 2 ≤ Int.fract q ∨ Int.fract q ≠ 0 ∧ Int.fract q ≠ 1 / 2)
      ↔ Int.fract q ≠ 0 := by
    constructor
    · rintro (h | h)
      · linarith
      · exact h.1
    · intro h
      by_cases h_half : Int.fract q = 1 / 2
      · exact .inl h_half.ge
      · exact .inr ⟨h, h_half⟩
  refine ⟨?_, ?_, ?_⟩
  · rw [h_floor, ← h_mantissa]
    simp [ExtendedMantissa.shiftRightOne]
  · -- The bit that is shifted out is worth one half of the new unit.
    show (em.mantissa % 2 != 0) = true ↔ _
    rw [bne_iff_ne, h_bit]
    rcases Int.emod_two_eq_zero_or_one ⌊q⌋ with h_even | h_odd
    · have h_small : Int.fract (q / 2) < 1 / 2 := by
        rw [h_fract, h_even]
        push_cast
        linarith
      exact ⟨fun h => by omega, fun h => absurd h_small (not_lt.mpr h)⟩
    · have h_large : 1 / 2 ≤ Int.fract (q / 2) := by
        rw [h_fract, h_odd]
        push_cast
        linarith
      exact ⟨fun _ => h_large, fun _ => h_odd⟩
  · -- The older bits are collected in the sticky bit: the new fraction is neither nothing nor
    -- one half exactly if there was a fraction before.
    show (em.roundBit || em.stickyBit) = true ↔ _
    rw [Bool.or_eq_true, h_round, h_sticky, h_any, h_fract]
    rcases Int.emod_two_eq_zero_or_one ⌊q⌋ with h_even | h_odd
    · rw [h_even, Int.cast_zero, zero_add]
      refine ⟨fun h => ⟨fun h' => h (by linarith), by linarith⟩, fun h h' => h.1 ?_⟩
      rw [h', zero_div]
    · rw [h_odd, Int.cast_one]
      refine ⟨fun h => ⟨by linarith, fun h' => h (by linarith)⟩, fun h h' => h.2 ?_⟩
      rw [h', add_zero]

theorem StandsFor.shiftRight {em : ExtendedMantissa} {q : ℚ} (h : StandsFor em q) (n : ℕ) :
    StandsFor (em >>> n) (q / 2 ^ n) := by
  show StandsFor (n.repeat ExtendedMantissa.shiftRightOne em) _
  induction n with
  | zero => simpa [Nat.repeat] using h
  | succ n ih =>
      rw [Nat.repeat, pow_succ, ← div_div]
      exact ih.shiftRightOne

theorem StandsFor.roundedMantissa {em : ExtendedMantissa} {q : ℚ} (h : StandsFor em q) :
    (em.roundedMantissa : ℤ) = roundHalfEven q := by
  obtain ⟨m, round, sticky⟩ := em
  obtain ⟨h_mantissa, h_round, h_sticky⟩ := h
  dsimp only at h_mantissa h_round h_sticky
  unfold ExtendedMantissa.roundedMantissa roundHalfEven
  rw [← h_mantissa]
  -- The round bit decides which half of the unit `q` is in, the sticky bit settles ties.
  cases round with
  | false =>
      have h_lt : Int.fract q < 1 / 2 := by
        by_contra h
        exact absurd (h_round.mpr (not_lt.mp h)) (by decide)
      rw [if_pos h_lt]
      cases sticky <;> rfl
  | true =>
      have h_le : ¬Int.fract q < 1 / 2 := not_lt.mpr (h_round.mp rfl)
      rw [if_neg h_le]
      cases sticky with
      | false =>
          have h_tie : Int.fract q = 1 / 2 := by
            have h_ge := h_round.mp rfl
            by_contra h
            exact absurd (h_sticky.mpr ⟨by intro h'; linarith, h⟩) (by decide)
          rw [if_pos h_tie]
          show ((m + m % 2 : ℕ) : ℤ) = _
          push_cast
          rfl
      | true =>
          rw [if_neg (h_sticky.mp rfl).2]
          rfl

/-! ## Positions

Binary32 numbers of one sign are numbered outward from zero.  A significand `m` at the
exponent `e` has the number `(e + 149) · 2 ^ 23 + m`: the next number after the last one
of an exponent is the first one of the next exponent.  `top` is the number of infinity. -/

/-- The position of infinity. -/
def top : ℤ := 255 * 2 ^ 23

/-- The exponent of the last place that a positive number is rounded at. -/
def unitExponent (v : ℚ) : ℤ := max (Int.log 2 v - 23) (-149)

/-- The position a positive number is rounded to, if the exponents had no end. -/
def magnitude (v : ℚ) : ℤ :=
  (unitExponent v + 149) * 2 ^ 23 + roundHalfEven (v / 2 ^ unitExponent v)

theorem neg_le_unitExponent (v : ℚ) : -149 ≤ unitExponent v := le_max_right _ _

theorem unitExponent_mono {v w : ℚ} (hv : 0 < v) (h : v ≤ w) :
    unitExponent v ≤ unitExponent w := by
  have h_log : Int.log 2 v ≤ Int.log 2 w := Int.log_mono_right hv h
  unfold unitExponent
  omega

theorem div_unitExponent_lt {v : ℚ} (hv : 0 < v) : v / 2 ^ unitExponent v < 2 ^ 24 := by
  have h_lt : v < ((2 : ℕ) : ℚ) ^ (unitExponent v + 24) := by
    rw [Int.lt_zpow_iff_log_lt (by norm_num) hv]
    unfold unitExponent
    omega
  rw [div_lt_iff₀ (by positivity)]
  calc v < 2 ^ (unitExponent v + 24) := by exact_mod_cast h_lt
    _ = 2 ^ 24 * 2 ^ unitExponent v := by
        rw [zpow_add₀ (by norm_num), mul_comm]
        norm_num

theorem le_div_unitExponent {v : ℚ} (hv : 0 < v) (h : -149 < unitExponent v) :
    2 ^ 23 ≤ v / 2 ^ unitExponent v := by
  have h_le : ((2 : ℕ) : ℚ) ^ (unitExponent v + 23) ≤ v := by
    rw [Int.zpow_le_iff_le_log (by norm_num) hv]
    unfold unitExponent at h ⊢
    omega
  rw [le_div_iff₀ (by positivity)]
  calc (2 : ℚ) ^ 23 * 2 ^ unitExponent v = 2 ^ (unitExponent v + 23) := by
        rw [zpow_add₀ (by norm_num), mul_comm]
        norm_num
    _ ≤ v := by exact_mod_cast h_le

theorem roundHalfEven_div_le {v : ℚ} (hv : 0 < v) :
    roundHalfEven (v / 2 ^ unitExponent v) ≤ 2 ^ 24 := by
  -- Both bounds are integers, so rounding does not leave them.
  have h := roundHalfEven_mono (div_unitExponent_lt hv).le
  rw [show (2 : ℚ) ^ 24 = ((2 ^ 24 : ℤ) : ℚ) by norm_num, roundHalfEven_intCast] at h
  exact h

theorem le_roundHalfEven_div {v : ℚ} (hv : 0 < v) (h : -149 < unitExponent v) :
    2 ^ 23 ≤ roundHalfEven (v / 2 ^ unitExponent v) := by
  have h := roundHalfEven_mono (le_div_unitExponent hv h)
  rw [show (2 : ℚ) ^ 23 = ((2 ^ 23 : ℤ) : ℚ) by norm_num, roundHalfEven_intCast] at h
  exact h

theorem roundHalfEven_nonneg {q : ℚ} (hq : 0 ≤ q) : 0 ≤ roundHalfEven q :=
  (Int.floor_nonneg.mpr hq).trans (floor_le_roundHalfEven q)

theorem magnitude_nonneg {v : ℚ} (hv : 0 < v) : 0 ≤ magnitude v := by
  have h_unit := neg_le_unitExponent v
  have h_round : 0 ≤ roundHalfEven (v / 2 ^ unitExponent v) :=
    roundHalfEven_nonneg (by positivity)
  unfold magnitude
  omega

theorem magnitude_mono {v w : ℚ} (hv : 0 < v) (h : v ≤ w) : magnitude v ≤ magnitude w := by
  have hw := hv.trans_le h
  rcases (unitExponent_mono hv h).lt_or_eq with h_lt | h_eq
  · -- The smaller number rounds to at most the first number of the next exponent.
    have h_v := roundHalfEven_div_le hv
    have h_w := le_roundHalfEven_div hw ((neg_le_unitExponent v).trans_lt h_lt)
    unfold magnitude
    omega
  · unfold magnitude
    rw [h_eq]
    have h_div : v / 2 ^ unitExponent w ≤ w / 2 ^ unitExponent w :=
      div_le_div_of_nonneg_right h (by positivity)
    have h_round := roundHalfEven_mono h_div
    omega

/-- The signed position of the binary32 number that a rational is rounded to. -/
def rounded (v : ℚ) : ℤ :=
  if 0 < v then min top (magnitude v)
  else if v < 0 then -min top (magnitude (-v))
  else 0

theorem rounded_of_pos {v : ℚ} (hv : 0 < v) : rounded v = min top (magnitude v) := if_pos hv

theorem rounded_zero : rounded 0 = 0 := by
  simp [rounded]

theorem rounded_neg (v : ℚ) : rounded (-v) = -rounded v := by
  rcases lt_trichotomy v 0 with h | rfl | h
  · simp [rounded, h, h.not_gt]
  · simp [rounded_zero]
  · simp [rounded, h, h.not_gt]

theorem rounded_nonneg {v : ℚ} (hv : 0 ≤ v) : 0 ≤ rounded v := by
  rcases hv.eq_or_lt with rfl | h
  · rw [rounded_zero]
  · rw [rounded_of_pos h]
    exact le_min (by decide) (magnitude_nonneg h)

theorem rounded_abs (v : ℚ) : rounded |v| = |rounded v| := by
  rcases le_total 0 v with h | h
  · rw [abs_of_nonneg h, abs_of_nonneg (rounded_nonneg h)]
  · have h_nonneg := rounded_nonneg (neg_nonneg.mpr h)
    rw [abs_of_nonpos h, ← abs_neg, ← rounded_neg, abs_of_nonneg h_nonneg]

theorem rounded_le_top (v : ℚ) : rounded v ≤ top := by
  rcases lt_or_ge 0 v with h | h
  · rw [rounded_of_pos h]
    exact min_le_left _ _
  · have h_nonneg := rounded_nonneg (neg_nonneg.mpr h)
    rw [rounded_neg] at h_nonneg
    exact (neg_nonneg.mp h_nonneg).trans (by decide)

theorem abs_rounded_le (v : ℚ) : |rounded v| ≤ top := by
  rw [← rounded_abs]
  exact rounded_le_top _

theorem rounded_mono {v w : ℚ} (h : v ≤ w) : rounded v ≤ rounded w := by
  by_cases hv : 0 < v
  · rw [rounded_of_pos hv, rounded_of_pos (hv.trans_le h)]
    exact min_le_min_left top (magnitude_mono hv h)
  · -- Below zero the claim is that of the mirrored numbers.
    have h_neg : 0 ≤ rounded (-v) := rounded_nonneg (by linarith)
    rw [rounded_neg] at h_neg
    by_cases hw : 0 ≤ w
    · have h_pos := rounded_nonneg hw
      omega
    · have h_mirror := magnitude_mono (v := -w) (w := -v) (by linarith) (by linarith)
      have h_min := min_le_min_left top h_mirror
      rw [← neg_neg v, ← neg_neg w, rounded_neg, rounded_neg (-w),
        rounded_of_pos (by linarith), rounded_of_pos (by linarith)]
      omega

end Verdure.Binary32
