/-
  Verdure.Proofs.Exact.Real

  Exact arithmetic: the formulas of the library, read over the real numbers.

  Scalar products are bilinear there, and a square root undoes a square, so lengths can be
  reasoned about through scalar products.
-/
import Mathlib.Analysis.Real.Sqrt
import Verdure.Space.Vec3

namespace Verdure

noncomputable instance : Scalar ℝ where
  decidableLT := inferInstance
  decidableLE := inferInstance
  sqrt := Real.sqrt
  totalLe a b := a ≤ b

@[simp] theorem Scalar.abs_real (a : ℝ) : Scalar.abs a = |a| := by
  unfold Scalar.abs
  norm_num
  split
  next h => exact (abs_of_neg h).symm
  next h => exact (abs_of_nonneg (not_lt.mp h)).symm

@[simp] theorem Scalar.max_real (a b : ℝ) : Scalar.max a b = a ⊔ b := by
  unfold Scalar.max
  split
  next h => exact (max_eq_left h).symm
  next h => rw [if_pos (not_le.mp h).le, max_eq_right (not_le.mp h).le]

@[simp] theorem Scalar.min_real (a b : ℝ) : Scalar.min a b = a ⊓ b := by
  unfold Scalar.min
  split
  next h => exact (min_eq_left h).symm
  next h => rw [if_pos (not_le.mp h).le, min_eq_right (not_le.mp h).le]

@[simp] theorem Scalar.clamp_real (lo hi a : ℝ) : Scalar.clamp lo hi a = (a ⊔ lo) ⊓ hi := by
  have h_lower : (if a < lo then lo else a) = a ⊔ lo := by
    split
    next h => exact (max_eq_right h.le).symm
    next h => exact (max_eq_left (not_lt.mp h)).symm
  unfold Scalar.clamp
  dsimp only
  rw [h_lower]
  split
  next h => exact (min_eq_right h.le).symm
  next h => exact (min_eq_left (not_lt.mp h)).symm

@[simp] theorem Scalar.sqrt_real (a : ℝ) : Scalar.sqrt a = √a := rfl

attribute [ext] Vec3

namespace Vec3

variable (u v w : Vec3 ℝ) (k : ℝ)

@[simp] theorem mk_add (x y z x' y' z' : ℝ) :
    (⟨x, y, z⟩ + ⟨x', y', z'⟩ : Vec3 ℝ) = ⟨x + x', y + y', z + z'⟩ := rfl

@[simp] theorem mk_sub (x y z x' y' z' : ℝ) :
    (⟨x, y, z⟩ - ⟨x', y', z'⟩ : Vec3 ℝ) = ⟨x - x', y - y', z - z'⟩ := rfl

@[simp] theorem mk_scale (x y z : ℝ) :
    (⟨x, y, z⟩ : Vec3 ℝ) * k = ⟨x * k, y * k, z * k⟩ := rfl

theorem dot_comm : v.dot w = w.dot v := by
  simp only [dot]
  ring

theorem dot_add : u.dot (v + w) = u.dot v + u.dot w := by
  show u.x * (v.x + w.x) + u.y * (v.y + w.y) + u.z * (v.z + w.z) = _
  simp only [dot]
  ring

theorem dot_sub : u.dot (v - w) = u.dot v - u.dot w := by
  show u.x * (v.x - w.x) + u.y * (v.y - w.y) + u.z * (v.z - w.z) = _
  simp only [dot]
  ring

theorem dot_scale : u.dot (v * k) = k * u.dot v := by
  show u.x * (v.x * k) + u.y * (v.y * k) + u.z * (v.z * k) = _
  simp only [dot]
  ring

theorem dot_self_nonneg : 0 ≤ v.dot v := by
  have h : v.dot v = v.x ^ 2 + v.y ^ 2 + v.z ^ 2 := by
    simp only [dot]
    ring
  rw [h]
  positivity

/-- The square of the length of a sum. -/
theorem dot_self_add : (v + w).dot (v + w) = v.dot v + 2 * v.dot w + w.dot w := by
  rw [dot_add, dot_comm (v + w) v, dot_comm (v + w) w, dot_add, dot_add, dot_comm w v]
  ring

/-- The Cauchy-Schwarz inequality. -/
theorem dot_mul_dot_le : v.dot w * v.dot w ≤ v.dot v * w.dot w := by
  have h : v.dot v * w.dot w - v.dot w * v.dot w
      = (v.x * w.y - v.y * w.x) ^ 2 + (v.x * w.z - v.z * w.x) ^ 2
        + (v.y * w.z - v.z * w.y) ^ 2 := by
    simp only [dot]
    ring
  have h_nonneg : 0 ≤ v.dot v * w.dot w - v.dot w * v.dot w := by
    rw [h]
    positivity
  linarith

/-- A vector of length zero has no part along any other. -/
theorem dot_eq_zero_of_self {v : Vec3 ℝ} (h : v.dot v = 0) (w : Vec3 ℝ) : v.dot w = 0 := by
  have h_le := dot_mul_dot_le v w
  rw [h, zero_mul] at h_le
  exact mul_self_eq_zero.mp (le_antisymm h_le (mul_self_nonneg _))

theorem sq_length : v.length ^ 2 = v.dot v := Real.sq_sqrt v.dot_self_nonneg

theorem length_nonneg : 0 ≤ v.length := Real.sqrt_nonneg _

theorem length_pos_iff : 0 < v.length ↔ 0 < v.dot v := Real.sqrt_pos

theorem dot_sub_self_comm : (v - w).dot (v - w) = (w - v).dot (w - v) := by
  rw [dot_sub, dot_sub, dot_comm _ v, dot_comm _ w, dot_comm _ v, dot_comm _ w]
  simp only [dot_sub]
  ring

theorem distance_comm : v.distance w = w.distance v := congrArg Real.sqrt (dot_sub_self_comm v w)

end Vec3

end Verdure
