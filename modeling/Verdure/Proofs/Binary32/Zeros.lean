/-
  Verdure.Proofs.Binary32.Zeros

  Zeros and ones in sums of products.

  A number that is not finite makes every sum and every product it enters one that is not
  finite, so the parts of a finite result are finite.  Of finite numbers a zero times any is a
  zero, and zeros vanish in sums.  Both together say what an expression is if it is finite,
  without a look at the numbers that a zero meets in it.
-/
import Verdure.Proofs.Binary32.Ordinal

namespace Verdure.Binary32

open Float.Model (Format UnpackedFloat)
open Float.Model.UnpackedFloat

/-! ## Finite results -/

section Unpacked

variable {f g : UnpackedFloat}

theorem isFinite_of_isFinite_pack (h : (Float32.ofModel (.pack f)).isFinite = true) :
    f.isFinite = true := by
  cases f with
  | infinity s =>
      cases s with
      | negative => exact absurd h Bool.false_ne_true
      | positive => exact absurd h Bool.false_ne_true
  | notANumber => exact absurd h Bool.false_ne_true
  | zero => rfl
  | finite => rfl

theorem isFinite_of_isFinite_mul (h : (mul Format.binary32 f g).isFinite = true) :
    f.isFinite = true ∧ g.isFinite = true := by
  cases f with
  | infinity s => cases g <;> exact absurd h Bool.false_ne_true
  | notANumber => exact absurd h Bool.false_ne_true
  | zero | finite =>
      cases g with
      | infinity => exact absurd h Bool.false_ne_true
      | notANumber => exact absurd h Bool.false_ne_true
      | zero => exact ⟨rfl, rfl⟩
      | finite => exact ⟨rfl, rfl⟩

theorem isFinite_of_isFinite_add (h : (add Format.binary32 f g).isFinite = true) :
    f.isFinite = true ∧ g.isFinite = true := by
  cases f with
  | infinity s =>
      cases g with
      | infinity t =>
          -- Infinities have a sum if they have one sign, and it is infinite.
          cases s <;> cases t <;> exact absurd h Bool.false_ne_true
      | notANumber | zero | finite => exact absurd h Bool.false_ne_true
  | notANumber => exact absurd h Bool.false_ne_true
  | zero | finite =>
      cases g with
      | infinity => exact absurd h Bool.false_ne_true
      | notANumber => exact absurd h Bool.false_ne_true
      | zero => exact ⟨rfl, rfl⟩
      | finite => exact ⟨rfl, rfl⟩

theorem exists_zero_mul (s : Sign) (hg : g.isFinite = true) :
    ∃ t, mul Format.binary32 (.zero s) g = .zero t := by
  cases g with
  | infinity => exact absurd hg Bool.false_ne_true
  | notANumber => exact absurd hg Bool.false_ne_true
  | zero t => exact ⟨s * t, rfl⟩
  | finite t => exact ⟨s * t, rfl⟩

theorem exists_mul_zero (hf : f.isFinite = true) (t : Sign) :
    ∃ s, mul Format.binary32 f (.zero t) = .zero s := by
  cases f with
  | infinity => exact absurd hf Bool.false_ne_true
  | notANumber => exact absurd hf Bool.false_ne_true
  | zero s => exact ⟨s * t, rfl⟩
  | finite s => exact ⟨s * t, rfl⟩

end Unpacked

theorem isFinite_factors {x y : Float32} (h : (x * y).isFinite = true) :
    x.isFinite = true ∧ y.isFinite = true :=
  isFinite_of_isFinite_mul (isFinite_of_isFinite_pack h)

theorem isFinite_summands {x y : Float32} (h : (x + y).isFinite = true) :
    x.isFinite = true ∧ y.isFinite = true :=
  isFinite_of_isFinite_add (isFinite_of_isFinite_pack h)

/-! ## Zeros -/

/-- One of the two zeros. -/
def IsZero (x : Float32) : Prop := ∃ s, x = .ofModel (.pack (.zero s))

theorem isZero_zero : IsZero 0.0 := ⟨.positive, by decide⟩

variable {x y : Float32}

namespace IsZero

theorem eq_or_eq (h : IsZero x) : x = 0.0 ∨ x = -0.0 := by
  obtain ⟨s, rfl⟩ := h
  cases s with
  | negative => exact .inr (by decide)
  | positive => exact .inl (by decide)

theorem beq (h : IsZero x) : (x == 0.0) = true := by
  rcases h.eq_or_eq with rfl | rfl <;> decide

theorem add (hx : IsZero x) (hy : IsZero y) : IsZero (x + y) := by
  obtain ⟨s, rfl⟩ := hx
  obtain ⟨t, rfl⟩ := hy
  -- The sum is negative zero if both are.
  cases s with
  | negative =>
      cases t with
      | negative => exact ⟨.negative, by decide⟩
      | positive => exact ⟨.positive, by decide⟩
  | positive => exact ⟨.positive, by cases t <;> decide⟩

theorem add_one (hx : IsZero x) : x + 1.0 = 1.0 := by
  rcases hx.eq_or_eq with rfl | rfl <;> decide

theorem sub_one (hx : IsZero x) : x - 1.0 = -1.0 := by
  rcases hx.eq_or_eq with rfl | rfl <;> decide

theorem neg (hx : IsZero x) : IsZero (-x) := by
  obtain ⟨s, rfl⟩ := hx
  exact ⟨-s, by cases s <;> decide⟩

theorem unpack_eq (hx : IsZero x) : ∃ s, x.toModel.unpack = .zero s := by
  obtain ⟨s, rfl⟩ := hx
  cases s with
  | negative => exact ⟨.negative, rfl⟩
  | positive => exact ⟨.positive, rfl⟩

/-- A zero vanishes in a sum with any number, NaN and the infinities included.  All it can do is
    to turn a negative zero into a positive one. -/
theorem add_eq_or (hx : IsZero x) (y : Float32) : y + x = y ∨ y = -0.0 ∧ y + x = 0.0 := by
  obtain ⟨s, h_x⟩ := hx.unpack_eq
  have h_sum : y + x = .ofModel (.pack
    (Float.Model.UnpackedFloat.add Format.binary32 y.toModel.unpack x.toModel.unpack)) := rfl
  have h_pack := pack_unpack y
  rw [h_x] at h_sum
  cases h_y : y.toModel.unpack with
  | zero t =>
      rw [h_y] at h_pack
      have h_zero : IsZero y := ⟨t, h_pack.symm⟩
      rcases hx.eq_or_eq with rfl | rfl <;> rcases h_zero.eq_or_eq with rfl | rfl <;> decide
  | notANumber | infinity | finite =>
      left
      rw [h_y] at h_sum h_pack
      exact h_sum.trans h_pack

theorem mul (hx : IsZero x) (hy : y.isFinite = true) : IsZero (x * y) := by
  obtain ⟨s, h_x⟩ := hx.unpack_eq
  obtain ⟨t, h_mul⟩ := exists_zero_mul s (g := y.toModel.unpack) hy
  rw [← h_x] at h_mul
  exact ⟨t, congrArg (Float32.ofModel <| .pack ·) h_mul⟩

theorem mul_left (hx : IsZero x) (hy : y.isFinite = true) : IsZero (y * x) := by
  obtain ⟨s, h_x⟩ := hx.unpack_eq
  obtain ⟨t, h_mul⟩ := exists_mul_zero (f := y.toModel.unpack) hy s
  rw [← h_x] at h_mul
  exact ⟨t, congrArg (Float32.ofModel <| .pack ·) h_mul⟩

end IsZero

/-- The zeros share a position. -/
theorem isZero_iff : IsZero x ↔ ordinal x = 0 := by
  constructor
  · intro h
    rcases h.eq_or_eq with rfl | rfl <;> decide
  · intro h
    have h_finite : |ordinal x| < top := by
      rw [h]
      decide
    obtain ⟨s, n, h_placed, -, h_ordinal⟩ := exists_placed h_finite
    have h_pack := pack_unpack x
    generalize x.toModel.unpack = f at *
    cases h_placed with
    | zero => exact ⟨s, h_pack.symm⟩
    | finite m e hm h_lt h_exp =>
        -- The position of a number with a significand is not zero.
        cases s <;> simp only [Sign.apply] at h_ordinal <;> omega

/-- A zero that is added does not change a position. -/
theorem IsZero.ordinal_add (hx : IsZero x) (y : Float32) : ordinal (y + x) = ordinal y := by
  rcases hx.add_eq_or y with h | ⟨rfl, h⟩
  · rw [h]
  · rw [h]
    decide

/-! ## Finite expressions -/

/-- A zero, unless it is not finite. -/
def ZeroIfFinite (x : Float32) : Prop := x.isFinite = true → IsZero x

/-- One, unless it is not finite. -/
def OneIfFinite (x : Float32) : Prop := x.isFinite = true → x = 1.0

theorem zeroIfFinite_zero : ZeroIfFinite 0.0 := fun _ => isZero_zero

theorem oneIfFinite_one : OneIfFinite 1.0 := fun _ => rfl

theorem ZeroIfFinite.add (hx : ZeroIfFinite x) (hy : ZeroIfFinite y) : ZeroIfFinite (x + y) := by
  intro h
  obtain ⟨h_x, h_y⟩ := isFinite_summands h
  exact (hx h_x).add (hy h_y)

theorem ZeroIfFinite.add_one (hx : ZeroIfFinite x) (hy : OneIfFinite y) : OneIfFinite (x + y) := by
  intro h
  obtain ⟨h_x, h_y⟩ := isFinite_summands h
  rw [hy h_y]
  exact (hx h_x).add_one

theorem ZeroIfFinite.mul (hx : ZeroIfFinite x) (y : Float32) : ZeroIfFinite (x * y) := by
  intro h
  obtain ⟨h_x, h_y⟩ := isFinite_factors h
  exact (hx h_x).mul h_y

theorem ZeroIfFinite.mul_left (hx : ZeroIfFinite x) (y : Float32) : ZeroIfFinite (y * x) := by
  intro h
  obtain ⟨h_y, h_x⟩ := isFinite_factors h
  exact (hx h_x).mul_left h_y

theorem OneIfFinite.mul (hx : OneIfFinite x) (hy : OneIfFinite y) : OneIfFinite (x * y) := by
  intro h
  obtain ⟨h_x, h_y⟩ := isFinite_factors h
  rw [hx h_x, hy h_y]
  decide

end Verdure.Binary32
