/-
  Verdure.Proofs.Noise.Words

  The steps of a hash of words, undone.

  A word is mixed by xor with a shifted copy of itself and by products with odd constants.
  Both keep words apart: a word that equals its own shifted copy is zero, and an odd constant
  has an inverse modulo 2⁶⁴.  As there are finitely many words, a step that keeps them apart
  also reaches all of them (`bijective_of_injective`).
-/
import Mathlib.Algebra.Ring.Nat
import Mathlib.Data.Finite.Defs
import Mathlib.Data.Fintype.EquivFin
import Verdure.Noise.White

namespace Verdure.Noise

/-- A map of words that keeps them apart permutes them. -/
theorem bijective_of_injective {f : UInt64 → UInt64} (h : Function.Injective f) :
    Function.Bijective f := by
  have h_finite : Finite UInt64 := Finite.of_injective UInt64.toFin fun _ _ => UInt64.toFin_inj.mp
  exact Finite.injective_iff_bijective.mp h

/-! ## Shifted copies -/

theorem toNat_shiftRight_eq_div (z k : UInt64) :
    (z >>> k).toNat = z.toNat / 2 ^ (k.toNat % 64) := by
  rw [UInt64.toNat_shiftRight, Nat.shiftRight_eq_div_pow]

/-- Only zero is kept by a shift. -/
theorem eq_zero_of_eq_shiftRight {d k : UInt64} (hk : 0 < k.toNat % 64) (h : d = d >>> k) :
    d = 0 := by
  have h_nat : d.toNat = d.toNat / 2 ^ (k.toNat % 64) := by
    rw [← toNat_shiftRight_eq_div, ← h]
  rw [← UInt64.toNat_inj]
  by_contra h_ne
  exact (Nat.div_lt_self (Nat.pos_of_ne_zero h_ne) (Nat.one_lt_two_pow hk.ne')).ne h_nat.symm

/-- A difference, taken by way of a third word. -/
theorem xor_eq_xor_xor (u v w : UInt64) : u ^^^ w = (u ^^^ v) ^^^ (v ^^^ w) := by
  rw [UInt64.xor_assoc, ← UInt64.xor_assoc v, UInt64.xor_self, UInt64.zero_xor]

theorem xor_shiftRight_injective {k : UInt64} (hk : 0 < k.toNat % 64) :
    Function.Injective fun z : UInt64 => z ^^^ (z >>> k) := by
  intro x y h
  -- Shifts distribute over xor, so the difference of the two words is its own shifted copy.
  have h_difference : x ^^^ y = (x ^^^ y) >>> k := by
    rw [UInt64.shiftRight_xor]
    calc x ^^^ y = (x ^^^ (x >>> k)) ^^^ ((x >>> k) ^^^ y) := xor_eq_xor_xor _ _ _
      _ = ((y >>> k) ^^^ y) ^^^ (y ^^^ (x >>> k)) := by
          rw [UInt64.xor_comm (y >>> k), UInt64.xor_comm (x >>> k) y]
          exact congrArg (· ^^^ (y ^^^ (x >>> k))) h
      _ = (x >>> k) ^^^ (y >>> k) := by rw [← xor_eq_xor_xor, UInt64.xor_comm]
  exact UInt64.xor_eq_zero_iff.mp (eq_zero_of_eq_shiftRight hk h_difference)

/-! ## Products with odd constants -/

theorem mul_injective_of_inverse (c c' : UInt64) (h : c * c' = 1) :
    Function.Injective fun z : UInt64 => z * c := by
  intro x y h_eq
  have h_back := congrArg (· * c') h_eq
  simpa only [UInt64.mul_assoc, h, UInt64.mul_one] using h_back

/-! ## Mixing -/

theorem mix64_injective : Function.Injective mix64 := by
  have h_first := xor_shiftRight_injective (k := 30) (by decide)
  have h_second := xor_shiftRight_injective (k := 27) (by decide)
  have h_third := xor_shiftRight_injective (k := 31) (by decide)
  -- The inverses of the two constants modulo 2⁶⁴.
  have h_scaled := mul_injective_of_inverse 0xbf58476d1ce4e5b9 0x96de1b173f119089 (by decide)
  have h_rescaled := mul_injective_of_inverse 0x94d049bb133111eb 0x319642b2d24d8ec3 (by decide)
  exact h_third.comp (h_rescaled.comp (h_second.comp (h_scaled.comp h_first)))

theorem mul_goldenGamma_injective : Function.Injective fun z : UInt64 => z * goldenGamma :=
  mul_injective_of_inverse goldenGamma 0xf1de83e19937733d (by decide)

theorem toBitVec_swapHalves (z : UInt64) :
    (swapHalves z).toBitVec = z.toBitVec.rotateLeft 32 := rfl

theorem swapHalves_involutive : Function.Involutive swapHalves := by
  intro z
  rw [← UInt64.toBitVec_inj, toBitVec_swapHalves, toBitVec_swapHalves]
  refine BitVec.eq_of_getLsbD_eq fun i h_i => ?_
  rw [BitVec.getLsbD_rotateLeft, BitVec.getLsbD_rotateLeft]
  -- A bit of the lower half has been in the upper one, and the other way round.
  by_cases h_low : i < 32
  · have h_up : 32 + i < 64 := by omega
    have h_high : ¬32 + i < 32 := by omega
    simp [h_low, h_up, h_high]
  · have h_down : i - 32 < 32 := by omega
    have h_back : 32 + (i - 32) = i := by omega
    simp [h_i, h_low, h_down, h_back]

end Verdure.Noise
