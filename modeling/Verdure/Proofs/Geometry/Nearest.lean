/-
  Verdure.Proofs.Geometry.Nearest

  The nearest points of two segments, in exact arithmetic.

  The squared length of the gap between two points is a convex function of their parameters.
  The first stage of the search minimises it over the first segment and the whole line of the
  second one (`NearestToLine`), where a zero slope along the line and an uphill slope along the
  segment are enough.  If the minimum is beyond an end of the second segment, the way from it to
  any point of that segment crosses the end, so the minimum over both segments is at the end,
  and the second stage finds it there.
-/
import Mathlib.Analysis.Convex.Basic
import Verdure.Proofs.Exact.Real
import Verdure.Proofs.Geometry.Ratios

namespace Verdure.Segment

open Set (Icc)

variable {p q : Segment ℝ} {s t s' t' : ℝ}

/-! ## Gaps -/

/-- The square of the distance of the points at two parameters. -/
noncomputable def squaredGap (p q : Segment ℝ) (s t : ℝ) : ℝ := (gap p q s t).dot (gap p q s t)

/-- The gap along a direction. -/
theorem dot_gap (v : Vec3 ℝ) (p q : Segment ℝ) (s t : ℝ) :
    v.dot (gap p q s t) = v.dot (offset p q) + s * v.dot p.span - t * v.dot q.span := by
  show v.dot (offset p q + p.span * s - q.span * t) = _
  rw [Vec3.dot_sub, Vec3.dot_add, Vec3.dot_scale, Vec3.dot_scale]

/-- A step of the parameters moves the gap along the two spans. -/
theorem gap_eq_add (p q : Segment ℝ) (s t s' t' : ℝ) :
    gap p q s' t' = gap p q s t + (p.span * (s' - s) - q.span * (t' - t)) := by
  have h_axis (w u v : ℝ) :
      w + u * s' - v * t' = (w + u * s - v * t) + (u * (s' - s) - v * (t' - t)) := by
    ring
  exact Vec3.ext (h_axis _ _ _) (h_axis _ _ _) (h_axis _ _ _)

/-- The squared gap after a step: the one before it, the slopes along the step, and the square
    of a length. -/
theorem squaredGap_eq (p q : Segment ℝ) (s t s' t' : ℝ) :
    ∃ rest, 0 ≤ rest ∧ squaredGap p q s' t' = squaredGap p q s t
      + 2 * ((s' - s) * p.span.dot (gap p q s t) - (t' - t) * q.span.dot (gap p q s t)) + rest := by
  refine ⟨_, (p.span * (s' - s) - q.span * (t' - t)).dot_self_nonneg, ?_⟩
  rw [squaredGap, gap_eq_add p q s t s' t', Vec3.dot_self_add, Vec3.dot_sub, Vec3.dot_scale,
    Vec3.dot_scale, Vec3.dot_comm _ p.span, Vec3.dot_comm _ q.span, squaredGap]

/-- No step with uphill slopes leads to nearer points. -/
theorem squaredGap_le_of_slopes (h_s : 0 ≤ (s' - s) * p.span.dot (gap p q s t))
    (h_t : (t' - t) * q.span.dot (gap p q s t) ≤ 0) :
    squaredGap p q s t ≤ squaredGap p q s' t' := by
  obtain ⟨rest, h_rest, h_eq⟩ := squaredGap_eq p q s t s' t'
  linarith

/-- The squared gap is convex. -/
theorem squaredGap_mix_le {a b : ℝ} (h_a : 0 ≤ a) (h_b : 0 ≤ b) (h_ab : a + b = 1) :
    squaredGap p q (a * s + b * s') (a * t + b * t')
      ≤ a * squaredGap p q s t + b * squaredGap p q s' t' := by
  obtain ⟨r, h_r, h_eq⟩ := squaredGap_eq p q (a * s + b * s') (a * t + b * t') s t
  obtain ⟨r', h_r', h_eq'⟩ := squaredGap_eq p q (a * s + b * s') (a * t + b * t') s' t'
  obtain rfl : a = 1 - b := by linarith
  rw [h_eq, h_eq']
  linarith [mul_nonneg h_a h_r, mul_nonneg h_b h_r']

/-! ## Minima -/

/-- The parameter `s` is the best one of `p` for the point at `t` on the line of `q`: no step
    from it along `p` goes downhill. -/
structure BestAt (p q : Segment ℝ) (s t : ℝ) : Prop where
  mem : s ∈ Icc (0 : ℝ) 1
  uphill : ∀ s' ∈ Icc (0 : ℝ) 1, 0 ≤ (s' - s) * p.span.dot (gap p q s t)

/-- No points of `p` and of the line of `q` are nearer than those at `s` and `t`. -/
structure NearestToLine (p q : Segment ℝ) (s t : ℝ) : Prop extends BestAt p q s t where
  along : q.span.dot (gap p q s t) = 0

/-- No points of `p` and of `q` are nearer than those at `s` and `t`. -/
structure Nearest (p q : Segment ℝ) (s t : ℝ) : Prop where
  mem_left : s ∈ Icc (0 : ℝ) 1
  mem_right : t ∈ Icc (0 : ℝ) 1
  le : ∀ s' ∈ Icc (0 : ℝ) 1, ∀ t' ∈ Icc (0 : ℝ) 1, squaredGap p q s t ≤ squaredGap p q s' t'

/-- On the unit interval a parabola with the slope `a * x - n` at `x` is lowest at `r`. -/
structure Lowest (a n r : ℝ) : Prop where
  mem : r ∈ Icc (0 : ℝ) 1
  uphill : ∀ x ∈ Icc (0 : ℝ) 1, 0 ≤ (x - r) * (a * r - n)

theorem BestAt.le (h : BestAt p q s t) (h_s' : s' ∈ Icc (0 : ℝ) 1) :
    squaredGap p q s t ≤ squaredGap p q s' t :=
  squaredGap_le_of_slopes (h.uphill s' h_s') (by rw [sub_self, zero_mul])

theorem NearestToLine.le (h : NearestToLine p q s t) (h_s' : s' ∈ Icc (0 : ℝ) 1) (t' : ℝ) :
    squaredGap p q s t ≤ squaredGap p q s' t' :=
  squaredGap_le_of_slopes (h.uphill s' h_s') (by rw [h.along, mul_zero])

theorem NearestToLine.nearest (h : NearestToLine p q s t) (h_t : t ∈ Icc (0 : ℝ) 1) :
    Nearest p q s t :=
  ⟨h.mem, h_t, fun _ h_s' t' _ => h.le h_s' t'⟩

/-- Every point of `q` is behind the end at `m`, seen from the nearest point of its line, so
    the best point for that end is nearest to the whole of `q`. -/
theorem NearestToLine.nearest_end (h : NearestToLine p q s t) {m r : ℝ}
    (h_m : m ∈ Icc (0 : ℝ) 1) (h_between : ∀ t' ∈ Icc (0 : ℝ) 1, m ∈ segment ℝ t t')
    (h_best : BestAt p q r m) : Nearest p q r m := by
  refine ⟨h_best.mem, h_m, fun s' h_s' t' h_t' => ?_⟩
  obtain ⟨a, b, h_a, h_b, h_ab, rfl⟩ := h_between t' h_t'
  -- The way from the nearest points to the given ones crosses the end above a point of `p`.
  have h_cross : a * s + b * s' ∈ Icc (0 : ℝ) 1 :=
    convex_Icc 0 1 h.mem h_s' h_a h_b h_ab
  calc squaredGap p q r (a * t + b * t')
      ≤ squaredGap p q (a * s + b * s') (a * t + b * t') := h_best.le h_cross
    _ ≤ a * squaredGap p q s t + b * squaredGap p q s' t' := squaredGap_mix_le h_a h_b h_ab
    _ ≤ a * squaredGap p q s' t' + b * squaredGap p q s' t' := by
        gcongr
        exact h.le h_s' t'
    _ = squaredGap p q s' t' := by rw [← add_mul, h_ab, one_mul]

/-! ## The first stage -/

theorem length_pos_iff (p : Segment ℝ) : 0 < p.length ↔ 0 < p.span.dot p.span := by
  rw [length, Vec3.distance_comm]
  exact Vec3.length_pos_iff _

/-- The equations of parallel segments agree. -/
theorem lineNumerator_eq_zero (h : determinant p q = 0) : lineNumerator p q = 0 := by
  -- The part of `p` across `q`, scaled by the square of the length of `q`.
  let across := p.span * q.span.dot q.span - q.span * p.span.dot q.span
  have h_dot (x : Vec3 ℝ) :
      x.dot across = q.span.dot q.span * x.dot p.span - p.span.dot q.span * x.dot q.span := by
    rw [Vec3.dot_sub, Vec3.dot_scale, Vec3.dot_scale]
  have h_across : across.dot across = 0 :=
    calc across.dot across
        = q.span.dot q.span * determinant p q := by
          rw [h_dot, Vec3.dot_comm across, Vec3.dot_comm across, h_dot, h_dot,
            Vec3.dot_comm q.span p.span, determinant]
          ring
      _ = 0 := by rw [h, mul_zero]
  have h_offset := Vec3.dot_eq_zero_of_self h_across (offset p q)
  rw [Vec3.dot_comm, h_dot, Vec3.dot_comm (offset p q), Vec3.dot_comm (offset p q)] at h_offset
  rw [lineNumerator]
  linarith

/-- A point of `p` and its foot on the line of `q`, where the distance of the feet is lowest. -/
theorem nearestToLine_foot (h_c : 0 < q.span.dot q.span)
    (h : Lowest (determinant p q) (lineNumerator p q) s) :
    NearestToLine p q s
      ((q.span.dot (offset p q) + s * p.span.dot q.span) / q.span.dot q.span) := by
  have h_slope : p.span.dot (gap p q s
      ((q.span.dot (offset p q) + s * p.span.dot q.span) / q.span.dot q.span))
        = (determinant p q * s - lineNumerator p q) / q.span.dot q.span := by
    rw [dot_gap, determinant, lineNumerator]
    field_simp
    ring
  constructor
  · refine ⟨h.mem, fun s' h_s' => ?_⟩
    rw [h_slope, ← mul_div_assoc]
    exact div_nonneg (h.uphill s' h_s') h_c.le
  · rw [dot_gap, Vec3.dot_comm q.span p.span, div_mul_cancel₀ _ h_c.ne']
    ring

/-! ## Quotients -/

namespace Ratio

/-- The quotient of the two parts. -/
noncomputable def quotient (r : Ratio ℝ) : ℝ := r.num / r.den

/-- The quotient is not taken for zero without being zero. -/
def Kept (r : Ratio ℝ) : Prop := r.num ≠ 0 → parameterEpsilon ≤ |r.num|

theorem value_eq_quotient {r : Ratio ℝ} (h : r.Kept) : r.value = r.quotient := by
  unfold value quotient
  split
  case isTrue h_small =>
    rw [Scalar.abs_real] at h_small
    have h_num : r.num = 0 := by_contra fun h_num => absurd h_small (not_lt.mpr (h h_num))
    rw [h_num, zero_div]
    norm_num
  case isFalse => rfl

/-- Moving the vertex `n / a` of a parabola into the unit interval gives its lowest point
    there. -/
theorem lowest_clamped {n a den : ℝ} (h_a : 0 ≤ a) (h_den : 0 < den) (h_zero : a = 0 → n = 0) :
    Lowest a n (clamped n a den).quotient := by
  unfold clamped quotient
  norm_num only
  split
  case isTrue h_neg =>
    dsimp only
    rw [zero_div]
    refine ⟨⟨le_rfl, zero_le_one⟩, fun x h_x => ?_⟩
    rw [sub_zero, mul_zero, zero_sub]
    exact mul_nonneg h_x.1 (neg_nonneg.mpr h_neg.le)
  case isFalse h_nonneg =>
    split
    case isTrue h_past =>
      dsimp only
      rw [div_self h_den.ne']
      refine ⟨⟨zero_le_one, le_rfl⟩, fun x h_x => ?_⟩
      rw [mul_one]
      exact mul_nonneg_of_nonpos_of_nonpos (sub_nonpos.mpr h_x.2) (sub_nonpos.mpr h_past.le)
    case isFalse h_le =>
      have h_vertex : a * (n / a) = n := mul_div_cancel_of_imp' h_zero
      refine ⟨⟨div_nonneg (not_lt.mp h_nonneg) h_a, div_le_one_of_le₀ (not_lt.mp h_le) h_a⟩,
        fun x _ => ?_⟩
      rw [h_vertex, sub_self, mul_zero]

end Ratio

/-- The two segments are not taken for parallel without being parallel, and `q` gives the
    direction then. -/
def Separated (p q : Segment ℝ) : Prop :=
  parallelEpsilon ≤ determinant p q ∨ determinant p q = 0 ∧ 0 < q.length

theorem determinant_pos (h : ¬determinant p q < parallelEpsilon) : 0 < determinant p q :=
  lt_of_lt_of_le (by norm_num [parallelEpsilon]) (not_lt.mp h)

theorem Separated.determinant_eq_zero (h : Separated p q)
    (h_parallel : determinant p q < parallelEpsilon) : determinant p q = 0 :=
  h.elim (fun h_det => absurd h_parallel (not_lt.mpr h_det)) And.left

theorem Separated.span_dot_pos (h : Separated p q) : 0 < q.span.dot q.span := by
  rcases h with h_det | ⟨-, h_length⟩
  · have h_pos := determinant_pos (not_lt.mpr h_det)
    refine lt_of_le_of_ne q.span.dot_self_nonneg fun h_zero => ?_
    have h_le := mul_self_nonneg (p.span.dot q.span)
    rw [determinant, ← h_zero, mul_zero] at h_pos
    linarith
  · exact q.length_pos_iff.mp h_length

theorem den_lineRatios_pos (h : Separated p q) :
    0 < (lineRatios p q).1.den ∧ 0 < (lineRatios p q).2.den := by
  have h_c := h.span_dot_pos
  unfold lineRatios
  dsimp only
  split
  case isTrue => exact ⟨by norm_num, h_c⟩
  case isFalse h_across =>
    have h_det := determinant_pos h_across
    split
    · exact ⟨h_det, h_c⟩
    · split
      · exact ⟨h_det, h_c⟩
      · exact ⟨h_det, h_det⟩

/-- The first stage takes the foot on the line of `q` of the point it takes on `p`. -/
theorem quotient_lineRatios_snd (h : Separated p q) :
    (lineRatios p q).2.quotient = (q.span.dot (offset p q)
      + (lineRatios p q).1.quotient * p.span.dot q.span) / q.span.dot q.span := by
  have h_c := h.span_dot_pos.ne'
  unfold lineRatios Ratio.quotient
  norm_num only
  split
  case isTrue =>
    dsimp only
    rw [zero_div, zero_mul, add_zero]
  case isFalse h_across =>
    have h_det := (determinant_pos h_across).ne'
    split
    · dsimp only
      rw [zero_div, zero_mul, add_zero]
    · split
      · dsimp only
        rw [div_self h_det, one_mul]
      · dsimp only
        rw [div_eq_div_iff h_det h_c]
        field_simp
        rw [lineNumerator, determinant]
        ring

theorem nearestToLine_lineRatios (h : Separated p q) :
    NearestToLine p q (lineRatios p q).1.quotient (lineRatios p q).2.quotient := by
  have h_lowest : Lowest (determinant p q) (lineNumerator p q) (lineRatios p q).1.quotient := by
    rw [lineRatios_fst]
    split
    case isTrue h_parallel =>
      -- Parallel lines have the same distance everywhere: any parameter is lowest.
      have h_det := h.determinant_eq_zero h_parallel
      rw [h_det, lineNumerator_eq_zero h_det]
      constructor <;> norm_num [Ratio.quotient]
    case isFalse h_across =>
      have h_det := determinant_pos h_across
      exact Ratio.lowest_clamped h_det.le h_det fun h_zero => absurd h_zero h_det.ne'
  rw [quotient_lineRatios_snd h]
  exact nearestToLine_foot h.span_dot_pos h_lowest

/-! ## The second stage -/

/-- A clamped quotient of the second stage is the best parameter of `p` for the point at `t`. -/
theorem bestAt_clamped {n den : ℝ} (h_den : 0 < den)
    (h_n : n = t * p.span.dot q.span - p.span.dot (offset p q)) :
    BestAt p q (Ratio.clamped n (p.span.dot p.span) den).quotient t := by
  have h_zero (h : p.span.dot p.span = 0) : n = 0 := by
    rw [h_n, Vec3.dot_eq_zero_of_self h, Vec3.dot_eq_zero_of_self h, mul_zero, sub_zero]
  have h_lowest := Ratio.lowest_clamped p.span.dot_self_nonneg h_den h_zero
  refine ⟨h_lowest.mem, fun s' h_s' => ?_⟩
  have h_slope : p.span.dot (gap p q (Ratio.clamped n (p.span.dot p.span) den).quotient t)
      = p.span.dot p.span * (Ratio.clamped n (p.span.dot p.span) den).quotient - n := by
    rw [dot_gap]
    linarith
  rw [h_slope]
  exact h_lowest.uphill s' h_s'

/-- The search finds the nearest points. -/
theorem nearest_closestRatios (h : Separated p q) :
    Nearest p q (closestRatios p q).1.quotient (closestRatios p q).2.quotient := by
  obtain ⟨h_den, h_den'⟩ := den_lineRatios_pos h
  have h_line := nearestToLine_lineRatios h
  rw [closestRatios_eq]
  norm_num only
  -- The foot on the line of `q` lies before the segment, behind it or on it.  If it is off the
  -- segment, the end next to it takes its place, and the parameter of `p` is found anew.
  split
  case isTrue h_neg =>
    have h_before : (lineRatios p q).2.quotient ≤ 0 := (div_neg_of_neg_of_pos h_neg h_den').le
    have h_end : Ratio.quotient ⟨0, (lineRatios p q).2.den⟩ = 0 := zero_div _
    rw [h_end]
    refine h_line.nearest_end ⟨le_rfl, zero_le_one⟩ (fun t' h_t' => ?_) (bestAt_clamped h_den ?_)
    · rw [segment_eq_Icc (h_before.trans h_t'.1)]
      exact ⟨h_before, h_t'.1⟩
    · rw [zero_mul, zero_sub]
  case isFalse h_nonneg =>
    split
    case isTrue h_past =>
      have h_behind : 1 ≤ (lineRatios p q).2.quotient := (one_le_div₀ h_den').mpr h_past.le
      have h_end : Ratio.quotient ⟨(lineRatios p q).2.den, (lineRatios p q).2.den⟩ = 1 :=
        div_self h_den'.ne'
      rw [h_end]
      refine h_line.nearest_end ⟨zero_le_one, le_rfl⟩ (fun t' h_t' => ?_)
        (bestAt_clamped h_den ?_)
      · rw [segment_symm, segment_eq_Icc (h_t'.2.trans h_behind)]
        exact ⟨h_t'.2, h_behind⟩
      · rw [one_mul, neg_add_eq_sub]
    case isFalse h_le =>
      exact h_line.nearest
        ⟨div_nonneg (not_lt.mp h_nonneg) h_den'.le, (div_le_one₀ h_den').mpr (not_lt.mp h_le)⟩

end Verdure.Segment
