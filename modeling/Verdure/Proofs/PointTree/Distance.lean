/-
  Verdure.Proofs.PointTree.Distance

  Rounded distances.

  The search passes over the far side of a split when the rounded square of the distance to
  the splitting plane is too large.  That is sound because this number never exceeds the
  rounded squared distance of a point beyond the plane: a coordinate difference across the
  plane is farther from zero than the offset of the plane, squares grow with the distance
  from zero, and a sum of squares is not below any of them.  Overflow to infinity is
  included in each step.
-/
import Verdure.Proofs.Binary32.Arithmetic
import Verdure.Space.Vec3

namespace Verdure

open Binary32

/-- Every coordinate is a finite number. -/
def Vec3.IsFinite (p : Point) : Prop := ∀ axis, (p.get axis).isFinite = true

theorem Vec3.IsFinite.abs_ordinal_lt {p : Point} (h : p.IsFinite) (axis : Axis) :
    |ordinal (p.get axis)| < top :=
  (isFinite_iff _).mp (h axis)

/-! ## Planes -/

/-- Across a plane at `s` from `q`, coordinates differ from `q` by no less than `s` does. -/
theorem abs_ordinal_sub_le_of_beyond {q s r : Float32} (hq : |ordinal q| < top)
    (hs : |ordinal s| < top) (hr : |ordinal r| < top)
    (h : q - s < 0.0 ∧ ¬r < s ∨ ¬q - s < 0.0 ∧ r < s) :
    |ordinal (q - s)| ≤ |ordinal (r - q)| := by
  -- Comparisons of numbers become comparisons of rationals, differences roundings of them.
  rw [lt_zero_iff (abs_ordinal_sub_le hq hs), lt_iff_ordinal hr.le hs.le, not_lt, not_lt,
    ← value_le_value_iff hs hr, ← not_le (a := ordinal s), ← value_le_value_iff hs hr, not_le,
    ordinal_sub hq hs] at h
  rw [ordinal_sub hq hs, ordinal_sub hr hq, ← rounded_abs (value r - value q)]
  rcases h with ⟨h_neg, h_beyond⟩ | ⟨h_nonneg, h_beyond⟩
  · -- From left to right: `q`, the plane, `r`.
    have h_offset : value q - value s < 0 := by
      by_contra h
      exact absurd (rounded_nonneg (not_lt.mp h)) (not_le.mpr h_neg)
    rw [← rounded_abs]
    apply rounded_mono
    rw [abs_of_neg h_offset, abs_of_pos (by linarith)]
    linarith
  · by_cases h_offset : 0 ≤ value q - value s
    · -- From left to right: `r`, the plane, `q`.
      rw [← rounded_abs]
      apply rounded_mono
      rw [abs_of_nonneg h_offset, abs_of_neg (by linarith)]
      linarith
    · -- A negative offset that is rounded to zero.
      have h_nonpos := rounded_nonneg (neg_nonneg.mpr (not_le.mp h_offset).le)
      rw [rounded_neg] at h_nonpos
      have h_zero : rounded (value q - value s) = 0 := by omega
      rw [h_zero, abs_zero]
      exact rounded_nonneg (abs_nonneg _)

theorem ordinal_square_le_of_beyond {q s r : Float32} (hq : |ordinal q| < top)
    (hs : |ordinal s| < top) (hr : |ordinal r| < top)
    (h : q - s < 0.0 ∧ ¬r < s ∨ ¬q - s < 0.0 ∧ r < s) :
    ordinal ((q - s) * (q - s)) ≤ ordinal ((r - q) * (r - q)) :=
  ordinal_mul_self_mono (abs_ordinal_sub_le hr hq) (abs_ordinal_sub_le_of_beyond hq hs hr h)

/-! ## Distances -/

theorem isMagnitude_sub_mul_self {p q : Point} (hp : p.IsFinite) (hq : q.IsFinite) (axis : Axis) :
    IsMagnitude ((p.get axis - q.get axis) * (p.get axis - q.get axis)) :=
  isMagnitude_mul_self (abs_ordinal_sub_le (hp.abs_ordinal_lt axis) (hq.abs_ordinal_lt axis))

/-- A squared length is a number, and not below the square of any coordinate. -/
theorem Vec3.dot_self_spec {v : Point} (h : ∀ axis, IsMagnitude (v.get axis * v.get axis)) :
    IsMagnitude (v.dot v) ∧
      ∀ axis, ordinal (v.get axis * v.get axis) ≤ ordinal (v.dot v) := by
  -- The sum runs from `x` to `z`.
  obtain ⟨h_xy, h_x_le, h_y_le⟩ := (h .x).add (h .y)
  obtain ⟨h_xyz, h_xy_le, h_z_le⟩ := h_xy.add (h .z)
  refine ⟨h_xyz, ?_⟩
  intro axis
  cases axis with
  | x => exact h_x_le.trans h_xy_le
  | y => exact h_y_le.trans h_xy_le
  | z => exact h_z_le

theorem Vec3.get_sub (p q : Point) (axis : Axis) : (p - q).get axis = p.get axis - q.get axis :=
  get_zipWith (· - ·) p q axis

/-- A squared distance is a number, and not below the square of any coordinate difference. -/
theorem distanceSquared_spec {p q : Point} (hp : p.IsFinite) (hq : q.IsFinite) :
    IsMagnitude (p.distanceSquared q) ∧ ∀ axis,
      ordinal ((p.get axis - q.get axis) * (p.get axis - q.get axis))
        ≤ ordinal (p.distanceSquared q) := by
  have h_spec := Vec3.dot_self_spec (v := p - q)
  simp only [Vec3.get_sub] at h_spec
  exact h_spec (isMagnitude_sub_mul_self hp hq)

/-- No point beyond the plane of a split is nearer than the plane. -/
theorem ordinal_plane_le_distanceSquared {q s r : Point} (hq : q.IsFinite) (hs : s.IsFinite)
    (hr : r.IsFinite) (axis : Axis)
    (h : q.get axis - s.get axis < 0.0 ∧ ¬r.get axis < s.get axis ∨
      ¬q.get axis - s.get axis < 0.0 ∧ r.get axis < s.get axis) :
    ordinal ((q.get axis - s.get axis) * (q.get axis - s.get axis))
      ≤ ordinal (r.distanceSquared q) :=
  (ordinal_square_le_of_beyond (hq.abs_ordinal_lt axis) (hs.abs_ordinal_lt axis)
    (hr.abs_ordinal_lt axis) h).trans ((distanceSquared_spec hr hq).2 axis)

end Verdure
