/-
  Verdure.Proofs.Geometry.Distance

  The distance of two segments and the collision test, in exact arithmetic.

  The search reports the distance of nearest points where neither of its cut-offs decides
  (`Resolved`).  It treats its two segments differently, but a smallest distance is the same
  from both sides, so there the collision test does not depend on who asks.
-/
import Verdure.Geometry.Bounds
import Verdure.Proofs.Geometry.Nearest

namespace Verdure

open Set (Icc)

namespace Segment

variable {p q : Segment ℝ} {s t s' t' : ℝ}

/-- No cut-off decides about the two segments: they are parallel or clearly not, and no
    parameter is taken for zero without being zero. -/
structure Resolved (p q : Segment ℝ) : Prop where
  separated : Separated p q
  left : (closestRatios p q).1.Kept
  right : (closestRatios p q).2.Kept

theorem Resolved.nearest (h : Resolved p q) :
    Nearest p q (closestParameters p q).1 (closestParameters p q).2 := by
  have h_nearest := nearest_closestRatios h.separated
  rw [← Ratio.value_eq_quotient h.left, ← Ratio.value_eq_quotient h.right] at h_nearest
  exact h_nearest

theorem sq_distance (p q : Segment ℝ) :
    p.distance q ^ 2 = squaredGap p q (closestParameters p q).1 (closestParameters p q).2 :=
  Vec3.sq_length _

theorem gap_eq_sub (p q : Segment ℝ) (s t : ℝ) : gap p q s t = p.pointAt s - q.pointAt t := by
  have h_axis (x y u v : ℝ) : x - y + u * s - v * t = (x + u * s) - (y + v * t) := by ring
  exact Vec3.ext (h_axis _ _ _ _) (h_axis _ _ _ _) (h_axis _ _ _ _)

theorem distance_pointAt (p q : Segment ℝ) (s t : ℝ) :
    (p.pointAt s).distance (q.pointAt t) = √(squaredGap p q s t) := by
  rw [squaredGap, gap_eq_sub]
  rfl

/-- The distance of two segments is the smallest distance of a point of one and a point of the
    other, and its square the minimum of the squared gap. -/
theorem distance_isLeast (h : Resolved p q) :
    IsLeast {x | ∃ s ∈ Icc (0 : ℝ) 1, ∃ t ∈ Icc (0 : ℝ) 1,
      x = (gap p q s t).dot (gap p q s t)} (p.distance q ^ 2) ∧
    IsLeast {x | ∃ s ∈ Icc (0 : ℝ) 1, ∃ t ∈ Icc (0 : ℝ) 1,
      x = (p.pointAt s).distance (q.pointAt t)} (p.distance q) := by
  have h_min := h.nearest
  constructor
  · rw [sq_distance]
    refine ⟨⟨_, h_min.mem_left, _, h_min.mem_right, rfl⟩, ?_⟩
    rintro x ⟨s, h_s, t, h_t, rfl⟩
    exact h_min.le s h_s t h_t
  · refine ⟨⟨_, h_min.mem_left, _, h_min.mem_right, (distance_pointAt _ _ _ _).symm⟩, ?_⟩
    rintro x ⟨s, h_s, t, h_t, rfl⟩
    rw [distance_pointAt]
    exact Real.sqrt_le_sqrt (h_min.le s h_s t h_t)

/-- A segment along an axis, and one that stands upright above it. -/
theorem resolved_below : Resolved ⟨⟨0, 0, 0⟩, ⟨2, 0, 0⟩⟩ ⟨⟨1, 1, 0⟩, ⟨1, 3, 0⟩⟩ := by
  have h_ratios : closestRatios (α := ℝ) ⟨⟨0, 0, 0⟩, ⟨2, 0, 0⟩⟩ ⟨⟨1, 1, 0⟩, ⟨1, 3, 0⟩⟩
      = (⟨2, 4⟩, ⟨0, 16⟩) := by
    norm_num [closestRatios, span, Vec3.dot, Ratio.clamped, parallelEpsilon]
  constructor
  · exact .inl (by norm_num [determinant, span, Vec3.dot, parallelEpsilon])
  · norm_num [h_ratios, Ratio.Kept, parameterEpsilon]
  · norm_num [h_ratios, Ratio.Kept, parameterEpsilon]

theorem distance_isLeast_below :
    IsLeast {x | ∃ s ∈ Icc (0 : ℝ) 1, ∃ t ∈ Icc (0 : ℝ) 1,
      x = (pointAt ⟨⟨0, 0, 0⟩, ⟨2, 0, 0⟩⟩ s).distance (pointAt ⟨⟨1, 1, 0⟩, ⟨1, 3, 0⟩⟩ t)}
      (distance ⟨⟨0, 0, 0⟩, ⟨2, 0, 0⟩⟩ ⟨⟨1, 1, 0⟩, ⟨1, 3, 0⟩⟩) :=
  (distance_isLeast resolved_below).2

/-! ## Both orders -/

theorem squaredGap_comm (p q : Segment ℝ) (s t : ℝ) : squaredGap q p t s = squaredGap p q s t := by
  rw [squaredGap, gap_eq_sub, Vec3.dot_sub_self_comm, ← gap_eq_sub, squaredGap]

theorem Nearest.symm (h : Nearest p q s t) : Nearest q p t s := by
  refine ⟨h.mem_right, h.mem_left, fun t' h_t' s' h_s' => ?_⟩
  rw [squaredGap_comm p q s t, squaredGap_comm p q s' t']
  exact h.le s' h_s' t' h_t'

theorem Nearest.squaredGap_eq (h : Nearest p q s t) (h' : Nearest p q s' t') :
    squaredGap p q s t = squaredGap p q s' t' :=
  le_antisymm (h.le s' h'.mem_left t' h'.mem_right) (h'.le s h.mem_left t h.mem_right)

/-- No cut-off decides about the two segments, or both are points. -/
def Settled (p q : Segment ℝ) : Prop := Resolved p q ∨ p.length = 0 ∧ q.length = 0

theorem span_dot_eq_zero (h : p.length = 0) (v : Vec3 ℝ) : p.span.dot v = 0 := by
  refine Vec3.dot_eq_zero_of_self (le_antisymm (not_lt.mp fun h_pos => ?_) p.span.dot_self_nonneg) v
  exact (p.length_pos_iff.mpr h_pos).ne' h

theorem Settled.nearest (h : Settled p q) :
    Nearest p q (closestParameters p q).1 (closestParameters p q).2 := by
  rcases h with h_resolved | ⟨h_p, h_q⟩
  · exact h_resolved.nearest
  · have h_parameters : closestParameters p q = (0, 0) := by
      norm_num [closestParameters, closestRatios, span_dot_eq_zero h_p, span_dot_eq_zero h_q,
        parallelEpsilon, Ratio.value]
    rw [h_parameters]
    refine ⟨⟨le_rfl, zero_le_one⟩, ⟨le_rfl, zero_le_one⟩, fun s' _ t' _ => ?_⟩
    apply squaredGap_le_of_slopes
    · rw [span_dot_eq_zero h_p, mul_zero]
    · rw [span_dot_eq_zero h_q, mul_zero]

/-- The distance does not depend on the order of the segments. -/
theorem distance_comm (h : Settled p q) (h' : Settled q p) : p.distance q = q.distance p := by
  have h_sq : p.distance q ^ 2 = q.distance p ^ 2 := by
    rw [sq_distance, sq_distance, h.nearest.squaredGap_eq h'.nearest.symm, squaredGap_comm]
  exact (sq_eq_sq₀ (Vec3.length_nonneg _) (Vec3.length_nonneg _)).mp h_sq

/-- The two segments of `resolved_below`, the upright one first. -/
theorem resolved_above : Resolved ⟨⟨1, 1, 0⟩, ⟨1, 3, 0⟩⟩ ⟨⟨0, 0, 0⟩, ⟨2, 0, 0⟩⟩ := by
  have h_ratios : closestRatios (α := ℝ) ⟨⟨1, 1, 0⟩, ⟨1, 3, 0⟩⟩ ⟨⟨0, 0, 0⟩, ⟨2, 0, 0⟩⟩
      = (⟨0, 16⟩, ⟨2, 4⟩) := by
    norm_num [closestRatios, span, Vec3.dot, Ratio.clamped, parallelEpsilon]
  constructor
  · exact .inl (by norm_num [determinant, span, Vec3.dot, parallelEpsilon])
  · norm_num [h_ratios, Ratio.Kept, parameterEpsilon]
  · norm_num [h_ratios, Ratio.Kept, parameterEpsilon]

end Segment

namespace Bounds

open Segment

/-- The collision test does not depend on which of the bounds asks. -/
theorem overlaps_comm (a b : Bounds ℝ) (epsilon : ℝ)
    (h : ∀ p q, a = .segment p → b = .segment q → Settled p q ∧ Settled q p) :
    a.overlaps b epsilon = b.overlaps a epsilon ∧
      ∀ p q, a = .segment p → b = .segment q → p.distance q = q.distance p := by
  have h_distance (p q) (h_a : a = .segment p) (h_b : b = .segment q) :
      p.distance q = q.distance p :=
    (h p q h_a h_b).elim Segment.distance_comm
  refine ⟨?_, h_distance⟩
  match a, b with
  | .box a, .box b => exact Bool.and_comm _ _
  | .box _, .segment _ => rfl
  | .segment _, .box _ => rfl
  | .segment p, .segment q =>
    show decide (p.distance q < epsilon) = decide (q.distance p < epsilon)
    rw [h_distance p q rfl rfl]

theorem overlaps_comm_above :
    (.segment ⟨⟨0, 0, 0⟩, ⟨2, 0, 0⟩⟩ : Bounds ℝ).overlaps (.segment ⟨⟨1, 1, 0⟩, ⟨1, 3, 0⟩⟩) 2
      = (.segment ⟨⟨1, 1, 0⟩, ⟨1, 3, 0⟩⟩ : Bounds ℝ).overlaps
          (.segment ⟨⟨0, 0, 0⟩, ⟨2, 0, 0⟩⟩) 2 := by
  refine (overlaps_comm _ _ _ ?_).1
  rintro p q ⟨⟩ ⟨⟩
  exact ⟨.inl Segment.resolved_below, .inl Segment.resolved_above⟩

/-- A point of a segment is at distance `0` from it, but the segment takes its own start for
    the point nearest to it. -/
theorem overlaps_point_on_segment :
    (.segment ⟨⟨0, 0, 0⟩, ⟨2, 0, 0⟩⟩ : Bounds ℝ).overlaps
        (.segment ⟨⟨1, 0, 0⟩, ⟨1, 0, 0⟩⟩) 1 = false ∧
      (.segment ⟨⟨1, 0, 0⟩, ⟨1, 0, 0⟩⟩ : Bounds ℝ).overlaps
        (.segment ⟨⟨0, 0, 0⟩, ⟨2, 0, 0⟩⟩) 1 = true := by
  have h_from_segment : closestParameters (α := ℝ) ⟨⟨0, 0, 0⟩, ⟨2, 0, 0⟩⟩ ⟨⟨1, 0, 0⟩, ⟨1, 0, 0⟩⟩
      = (0, 0) := by
    norm_num [closestParameters, closestRatios, span, Vec3.dot, parallelEpsilon, Ratio.value]
  have h_from_point : closestParameters (α := ℝ) ⟨⟨1, 0, 0⟩, ⟨1, 0, 0⟩⟩ ⟨⟨0, 0, 0⟩, ⟨2, 0, 0⟩⟩
      = (0, 1 / 2) := by
    norm_num [closestParameters, closestRatios, span, Vec3.dot, parallelEpsilon, Ratio.value,
      parameterEpsilon]
  constructor
  · norm_num [overlaps, distance, h_from_segment, gap, span, Vec3.length, Vec3.dot]
  · norm_num [overlaps, distance, h_from_point, gap, span, Vec3.length, Vec3.dot]

end Bounds

end Verdure
