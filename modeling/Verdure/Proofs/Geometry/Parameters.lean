/-
  Verdure.Proofs.Geometry.Parameters

  The parameters of nearest points, in rounded arithmetic.

  Rounding can move the parameters, but not out of their segments.  Each quotient of the search
  has a numerator between zero and its denominator (`Ratio.InUnit`): the branches that could
  break this replace the numerator.  So a quotient with a numerator that is not negligible has
  a denominator that is not negligible either, and stays between `0` and `1` when it is rounded.
-/
import Verdure.Proofs.Binary32.Quotient
import Verdure.Proofs.Geometry.Ratios
import Verdure.Proofs.PointTree.Distance

namespace Verdure.Segment

open Binary32

variable {p q : Segment Float32}

/-! ## Quotients -/

namespace Ratio

/-- The quotient stands for a number between `0` and `1`, unless its denominator is zero. -/
structure InUnit (r : Ratio Float32) : Prop where
  num_finite : r.num.isFinite = true
  den_finite : r.den.isFinite = true
  nonneg : 0.0 ≤ r.num
  le : r.num ≤ r.den

variable {r : Ratio Float32}

theorem inUnit_zero {den : Float32} (h_den : den.isFinite = true) (h_nonneg : 0.0 ≤ den) :
    InUnit ⟨0.0, den⟩ where
  num_finite := (by decide : (0.0 : Float32).isFinite = true)
  den_finite := h_den
  nonneg := (by decide : (0.0 : Float32) ≤ 0.0)
  le := h_nonneg

theorem inUnit_clamped {n a den : Float32} (h_n : n.isFinite = true) (h_a : a.isFinite = true)
    (h_den : den.isFinite = true) (h_nonneg : 0.0 ≤ den) : (clamped n a den).InUnit := by
  have h_n_le := ((isFinite_iff n).mp h_n).le
  have h_a_le := ((isFinite_iff a).mp h_a).le
  have h_den_le := ((isFinite_iff den).mp h_den).le
  unfold clamped
  split
  next h_neg => exact inUnit_zero h_den h_nonneg
  next h_not_neg =>
    split
    next h_past => exact ⟨h_den, h_den, h_nonneg, (le_iff_ordinal h_den_le h_den_le).mpr le_rfl⟩
    next h_not_past =>
      exact ⟨h_n, h_a, (not_lt_iff h_n_le abs_ordinal_zero_le).mp h_not_neg,
        (not_lt_iff h_a_le h_n_le).mp h_not_past⟩

theorem InUnit.abs_ordinal_num_le (h : r.InUnit) : |ordinal r.num| ≤ top :=
  ((isFinite_iff _).mp h.num_finite).le

theorem InUnit.abs_ordinal_den_le (h : r.InUnit) : |ordinal r.den| ≤ top :=
  ((isFinite_iff _).mp h.den_finite).le

theorem InUnit.den_nonneg (h : r.InUnit) : 0.0 ≤ r.den :=
  le_trans_ordinal h.nonneg h.le

theorem abs_ordinal_parameterEpsilon_le : |ordinal parameterEpsilon| ≤ top := by decide

/-- A quotient that is divided has a denominator that is not negligible. -/
theorem InUnit.parameterEpsilon_le_den (h : r.InUnit)
    (h_divided : ¬Scalar.abs r.num < parameterEpsilon) : parameterEpsilon ≤ r.den := by
  have h_num := h.abs_ordinal_num_le
  have h_not_neg : ¬r.num < 0.0 := (not_lt_iff h_num abs_ordinal_zero_le).mpr h.nonneg
  rw [Scalar.abs, if_neg h_not_neg, not_lt_iff h_num abs_ordinal_parameterEpsilon_le]
    at h_divided
  exact le_trans_ordinal h_divided h.le

theorem InUnit.value_mem (h : r.InUnit) : 0.0 ≤ r.value ∧ r.value ≤ 1.0 := by
  unfold value
  split
  next h_small => exact (by decide : (0.0 : Float32) ≤ 0.0 ∧ (0.0 : Float32) ≤ 1.0)
  next h_divided =>
    have h_le := h.parameterEpsilon_le_den h_divided
    rw [le_iff_ordinal abs_ordinal_parameterEpsilon_le h.abs_ordinal_den_le] at h_le
    have h_pos : 0.0 < r.den :=
      (zero_lt_iff h.abs_ordinal_den_le).mpr (lt_of_lt_of_le (by decide) h_le)
    exact div_mem_unit h.num_finite h.den_finite h.nonneg h.le h_pos

end Ratio

/-! ## The search -/

/-- The intermediate values that the two quotients are made from are finite, as far as the
    search comes to them. -/
structure FiniteSteps (p q : Segment Float32) : Prop where
  span : q.span.IsFinite
  left : (p.span.dot p.span).isFinite = true
  right : (q.span.dot q.span).isFinite = true
  det : (determinant p q).isFinite = true
  line_left : ¬determinant p q < parallelEpsilon → (lineNumerator p q).isFinite = true
  line_right : (lineRatios p q).2.num.isFinite = true
  before : (lineRatios p q).2.num < 0.0 → (-p.span.dot (offset p q)).isFinite = true
  behind : (lineRatios p q).2.den < (lineRatios p q).2.num →
    (-p.span.dot (offset p q) + p.span.dot q.span).isFinite = true

namespace FiniteSteps

theorem right_nonneg (h : FiniteSteps p q) : 0.0 ≤ q.span.dot q.span := by
  have h_magnitude : IsMagnitude (q.span.dot q.span) :=
    (Vec3.dot_self_spec fun axis => isMagnitude_mul_self (h.span.abs_ordinal_lt axis).le).1
  rw [le_iff_ordinal abs_ordinal_zero_le h_magnitude.abs_ordinal_le, ordinal_zero,
    h_magnitude.ordinal_eq]
  exact Int.natCast_nonneg _

theorem det_nonneg (h : FiniteSteps p q) (h_across : ¬determinant p q < parallelEpsilon) :
    0.0 ≤ determinant p q := by
  have h_epsilon : |ordinal parallelEpsilon| ≤ top := by decide
  have h_det := ((isFinite_iff _).mp h.det).le
  have h_nonneg : (0.0 : Float32) ≤ parallelEpsilon := by decide
  exact le_trans_ordinal h_nonneg ((not_lt_iff h_det h_epsilon).mp h_across)

theorem inUnit_lineRatios_fst (h : FiniteSteps p q) : (lineRatios p q).1.InUnit := by
  rw [lineRatios_fst]
  split
  next h_parallel => exact Ratio.inUnit_zero (by decide) (by decide)
  next h_across =>
    exact Ratio.inUnit_clamped (h.line_left h_across) h.det h.det (h.det_nonneg h_across)

theorem den_lineRatios_snd (h : FiniteSteps p q) :
    (lineRatios p q).2.den.isFinite = true ∧ 0.0 ≤ (lineRatios p q).2.den := by
  unfold lineRatios
  dsimp only
  split
  next h_parallel => exact ⟨h.right, h.right_nonneg⟩
  next h_across =>
    split
    · exact ⟨h.right, h.right_nonneg⟩
    · split
      · exact ⟨h.right, h.right_nonneg⟩
      · exact ⟨h.det, h.det_nonneg h_across⟩

/-- Both quotients of the search stand for numbers between `0` and `1`. -/
theorem inUnit_closestRatios (h : FiniteSteps p q) :
    (closestRatios p q).1.InUnit ∧ (closestRatios p q).2.InUnit := by
  obtain ⟨h_den, h_den_nonneg⟩ := h.den_lineRatios_snd
  constructor
  · have h_line := h.inUnit_lineRatios_fst
    rw [closestRatios_fst]
    split
    next h_before =>
      exact Ratio.inUnit_clamped (h.before h_before) h.left h_line.den_finite h_line.den_nonneg
    next h_not_before =>
      split
      next h_behind =>
        exact Ratio.inUnit_clamped (h.behind h_behind) h.left h_line.den_finite h_line.den_nonneg
      next h_not_behind => exact h_line
  · rw [closestRatios_snd]
    exact Ratio.inUnit_clamped h.line_right h_den h_den h_den_nonneg

end FiniteSteps

/-- The distance is measured between points of the two segments, and no quotient is divided by
    a negligible number on the way to them. -/
theorem closestParameters_in_unit (h : FiniteSteps p q) :
    (¬Scalar.abs (closestRatios p q).1.num < parameterEpsilon →
      parameterEpsilon ≤ (closestRatios p q).1.den) ∧
    (¬Scalar.abs (closestRatios p q).2.num < parameterEpsilon →
      parameterEpsilon ≤ (closestRatios p q).2.den) ∧
    ∃ s t, closestParameters p q = (s, t) ∧ (0.0 ≤ s ∧ s ≤ 1.0) ∧ (0.0 ≤ t ∧ t ≤ 1.0) ∧
      p.distance q = ((p.start - q.start) + p.span * s - q.span * t).length := by
  obtain ⟨h_left, h_right⟩ := h.inUnit_closestRatios
  exact ⟨h_left.parameterEpsilon_le_den, h_right.parameterEpsilon_le_den,
    _, _, rfl, h_left.value_mem, h_right.value_mem, rfl⟩

/-- Two segments that pass over each other, with a division for both parameters. -/
theorem closestParameters_in_unit_skew :
    parameterEpsilon ≤ (closestRatios (α := Float32) ⟨⟨-1.0, 0.0, 0.0⟩, ⟨1.0, 0.0, 0.0⟩⟩
      ⟨⟨0.0, -1.0, 2.0⟩, ⟨0.0, 1.0, 2.0⟩⟩).1.den ∧
    parameterEpsilon ≤ (closestRatios (α := Float32) ⟨⟨-1.0, 0.0, 0.0⟩, ⟨1.0, 0.0, 0.0⟩⟩
      ⟨⟨0.0, -1.0, 2.0⟩, ⟨0.0, 1.0, 2.0⟩⟩).2.den := by
  have h_steps : FiniteSteps ⟨⟨-1.0, 0.0, 0.0⟩, ⟨1.0, 0.0, 0.0⟩⟩
      ⟨⟨0.0, -1.0, 2.0⟩, ⟨0.0, 1.0, 2.0⟩⟩ := by
    constructor
    case span =>
      intro axis
      cases axis <;> decide +kernel
    all_goals decide +kernel
  obtain ⟨h_left, h_right, _⟩ := closestParameters_in_unit h_steps
  exact ⟨h_left (by decide +kernel), h_right (by decide +kernel)⟩

end Verdure.Segment
