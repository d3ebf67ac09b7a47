/-
  Verdure.Proofs.Geometry.Slabs

  The test of a segment against a box, in exact arithmetic.

  A box is the intersection of three slabs, one for each axis.  A slab cuts the running interval
  down to the parameters at which the segment is also inside that slab (`spanned_slab`), and
  turns it away only if none is left.  So the interval after all three axes holds exactly the
  parameters of the points in the box.
-/
import Mathlib.Algebra.Order.Group.Pointwise.Interval
import Verdure.Proofs.Exact.Real
import Verdure.Geometry.Segment

namespace Verdure

open Set (Icc uIcc)

/-- On each axis the corners of the box are in order. -/
def Box.Ordered {α : Type} [Scalar α] (b : Box α) : Prop :=
  ∀ axis, b.lower.get axis ≤ b.upper.get axis

namespace Segment

/-! ## One slab -/

/-- The parameters at which a point that starts at `origin` and moves by `delta` is in
    `[lo, hi]`. -/
def inside (lo hi origin delta : ℝ) : Set ℝ := {t | origin + delta * t ∈ Icc lo hi}

/-- The parameters of an interval, none if it was turned away. -/
def spanned : Option (ℝ × ℝ) → Set ℝ
  | none => ∅
  | some range => Icc range.1 range.2

theorem stillEpsilon_pos : (0 : ℝ) < stillEpsilon := by
  norm_num [stillEpsilon]

section Slab

variable {lo hi origin delta : ℝ}

/-- A point that does not move is inside at every parameter or at none. -/
theorem inside_still (lo hi origin : ℝ) :
    inside lo hi origin 0 = if origin < lo ∨ hi < origin then ∅ else Set.univ := by
  ext t
  have h_mem : t ∈ inside lo hi origin 0 ↔ ¬(origin < lo ∨ hi < origin) := by
    show origin + 0 * t ∈ Icc lo hi ↔ _
    rw [zero_mul, add_zero, not_or, not_lt, not_lt, Set.mem_Icc]
  rw [h_mem]
  split
  next h => exact iff_of_false (not_not_intro h) (Set.notMem_empty t)
  next h => exact iff_of_true h (Set.mem_univ t)

/-- A point that moves is inside between the parameters at which it passes the two ends. -/
theorem inside_moving (h_le : lo ≤ hi) (h_moving : delta ≠ 0) :
    inside lo hi origin delta = uIcc ((lo - origin) / delta) ((hi - origin) / delta) := by
  have h_affine : inside lo hi origin delta
      = Set.preimage (delta * ·) (Set.preimage (origin + ·) (Icc lo hi)) := rfl
  rw [h_affine, ← Set.uIcc_of_le h_le, Set.preimage_const_add_uIcc,
    Set.preimage_const_mul_uIcc h_moving]

theorem slab_still (lo hi origin : ℝ) (range : ℝ × ℝ) :
    slab lo hi origin 0 range = if origin < lo ∨ hi < origin then none else some range := by
  have h_still : Scalar.abs (0 : ℝ) < stillEpsilon := by
    rw [Scalar.abs_real, abs_zero]
    exact stillEpsilon_pos
  rw [slab, if_pos h_still]

/-- Along an axis on which the segment moves, the interval is cut at the parameters at which it
    passes the two ends, in whichever order it passes them. -/
theorem slab_moving (h_moving : stillEpsilon ≤ |delta|) (range : ℝ × ℝ) :
    slab lo hi origin delta range =
      let first := max range.1 (min ((lo - origin) / delta) ((hi - origin) / delta))
      let last := min range.2 (max ((lo - origin) / delta) ((hi - origin) / delta))
      if last < first then none else some (first, last) := by
  have h_one : (1.0 : ℝ) = 1 := by norm_num
  rw [slab, Scalar.abs_real, if_neg (not_lt.mpr h_moving)]
  simp only [Scalar.max_real, Scalar.min_real, h_one, ← div_eq_mul_one_div]
  by_cases h_order : (hi - origin) / delta < (lo - origin) / delta
  · rw [if_pos h_order, min_eq_right h_order.le, max_eq_left h_order.le]
  · rw [if_neg h_order, min_eq_left (not_lt.mp h_order), max_eq_right (not_lt.mp h_order)]

/-- The interval that a slab leaves holds the parameters that are inside of it. -/
theorem spanned_slab (h_le : lo ≤ hi) (h_delta : delta = 0 ∨ stillEpsilon ≤ |delta|)
    (range : ℝ × ℝ) :
    spanned (slab lo hi origin delta range)
      = Icc range.1 range.2 ∩ inside lo hi origin delta := by
  rcases h_delta with rfl | h_moving
  · rw [slab_still, inside_still]
    split
    next => exact (Set.inter_empty _).symm
    next => exact (Set.inter_univ _).symm
  · have h_ne : delta ≠ 0 := abs_pos.mp (stillEpsilon_pos.trans_le h_moving)
    rw [slab_moving h_moving, inside_moving h_le h_ne, uIcc, Set.Icc_inter_Icc]
    dsimp only
    split
    next h_empty => exact (Set.Icc_eq_empty_of_lt h_empty).symm
    next => rfl

/-- A slab that leaves an interval leaves a parameter. -/
theorem le_of_slab_eq_some (h_delta : delta = 0 ∨ stillEpsilon ≤ |delta|) {range r : ℝ × ℝ}
    (h_range : range.1 ≤ range.2) (h : slab lo hi origin delta range = some r) : r.1 ≤ r.2 := by
  rcases h_delta with rfl | h_moving
  · rw [slab_still] at h
    split at h
    next => cases h
    next =>
      cases h
      exact h_range
  · rw [slab_moving h_moving] at h
    dsimp only at h
    split at h
    next => cases h
    next h_le =>
      cases h
      exact not_lt.mp h_le

end Slab

/-! ## Boxes -/

section Box

variable {s : Segment ℝ} {b : Box ℝ}

/-- The parameters at which a segment is in the slab of a box for an axis. -/
def insideOn (s : Segment ℝ) (b : Box ℝ) (axis : Axis) : Set ℝ :=
  inside (b.lower.get axis) (b.upper.get axis) (s.start.get axis) (s.span.get axis)

theorem contains_pointAt_iff (s : Segment ℝ) (b : Box ℝ) (t : ℝ) :
    b.contains (s.pointAt t) = true ↔ ∀ axis, t ∈ s.insideOn b axis := by
  rw [Box.contains_iff]
  refine forall_congr' fun axis => ?_
  cases axis <;> exact Iff.rfl

/-- On each axis the segment moves not at all, or far enough to be treated as moving. -/
def StillOrMoving (s : Segment ℝ) : Prop :=
  ∀ axis, s.span.get axis = 0 ∨ stillEpsilon ≤ |s.span.get axis|

/-- An interval that was not turned away holds a parameter. -/
def Proper (range? : Option (ℝ × ℝ)) : Prop := ∀ range, range? = some range → range.1 ≤ range.2

theorem Proper.isSome_iff {range? : Option (ℝ × ℝ)} (h : Proper range?) :
    range?.isSome = true ↔ (spanned range?).Nonempty := by
  cases range? with
  | none => simp [spanned]
  | some range => simpa [spanned] using h range rfl

/-- The interval cut down by the slab of one more axis, if there still is one. -/
noncomputable def cut (s : Segment ℝ) (b : Box ℝ) (axis : Axis) (range? : Option (ℝ × ℝ)) :
    Option (ℝ × ℝ) :=
  range?.bind fun range =>
    slab (b.lower.get axis) (b.upper.get axis) (s.start.get axis) (s.span.get axis) range

theorem spanned_cut (h_box : b.Ordered) (h_span : s.StillOrMoving) (axis : Axis)
    (range? : Option (ℝ × ℝ)) :
    spanned (s.cut b axis range?) = spanned range? ∩ s.insideOn b axis := by
  cases range? with
  | none => exact (Set.empty_inter _).symm
  | some range => exact spanned_slab (h_box axis) (h_span axis) range

theorem Proper.cut (h_span : s.StillOrMoving) (axis : Axis) {range? : Option (ℝ × ℝ)}
    (h : Proper range?) : Proper (s.cut b axis range?) := by
  intro r h_r
  obtain ⟨range, h_range, h_slab⟩ := Option.bind_eq_some_iff.mp h_r
  exact le_of_slab_eq_some (h_span axis) (h range h_range) h_slab

/-- The whole segment, cut down axis by axis. -/
theorem meetsBox_eq_isSome_cut (s : Segment ℝ) (b : Box ℝ) :
    s.meetsBox b = (s.cut b .z (s.cut b .y (s.cut b .x (some (0, 1))))).isSome := by
  have h_zero : (0.0 : ℝ) = 0 := by norm_num
  have h_one : (1.0 : ℝ) = 1 := by norm_num
  rw [meetsBox, h_zero, h_one]
  simp only [Segment.cut, Option.bind_some, Option.bind_assoc]

/-- **A segment meets a box where a point of it is in the box.**  In exact arithmetic, for a box
    whose corners are in order and a segment that on each axis moves not at all or by at least
    `stillEpsilon`, the test against the box succeeds exactly if some point of the segment, its
    ends included, lies in the closed box. -/
theorem meetsBox_iff_exists_contains (s : Segment ℝ) (b : Box ℝ) (h_box : b.Ordered)
    (h_span : s.StillOrMoving) :
    s.meetsBox b = true ↔ ∃ t ∈ Icc (0 : ℝ) 1, b.contains (s.pointAt t) = true := by
  have h_whole : Proper (some ((0 : ℝ), (1 : ℝ))) := by
    rintro range ⟨⟩
    exact zero_le_one
  have h_proper : Proper (s.cut b .z (s.cut b .y (s.cut b .x (some (0, 1))))) :=
    ((h_whole.cut h_span .x).cut h_span .y).cut h_span .z
  rw [meetsBox_eq_isSome_cut, h_proper.isSome_iff]
  simp only [spanned_cut h_box h_span]
  constructor
  · rintro ⟨t, ⟨⟨h_t, h_x⟩, h_y⟩, h_z⟩
    refine ⟨t, h_t, (contains_pointAt_iff s b t).mpr fun axis => ?_⟩
    cases axis with
    | x => exact h_x
    | y => exact h_y
    | z => exact h_z
  · rintro ⟨t, h_t, h_contains⟩
    have h_inside := (contains_pointAt_iff s b t).mp h_contains
    exact ⟨t, ⟨⟨h_t, h_inside .x⟩, h_inside .y⟩, h_inside .z⟩

/-- A segment that falls through the unit cube from above, in a plane on which `y` stays. -/
theorem meetsBox_iff_exists_contains_falling :
    let s : Segment ℝ := ⟨⟨-1, 1, 2⟩, ⟨2, 1, -1⟩⟩
    let b : Box ℝ := ⟨⟨0, 0, 0⟩, ⟨1, 1, 1⟩⟩
    b.Ordered ∧ s.StillOrMoving ∧ s.meetsBox b = true := by
  intro s b
  have h_box : b.Ordered := by
    rintro (_ | _ | _) <;> exact zero_le_one
  have h_span : s.StillOrMoving := by
    rintro (_ | _ | _)
    · right
      norm_num [s, span, Vec3.get, stillEpsilon]
    · left
      norm_num [s, span, Vec3.get]
    · right
      norm_num [s, span, Vec3.get, stillEpsilon]
  refine ⟨h_box, h_span, (meetsBox_iff_exists_contains s b h_box h_span).mpr ⟨1 / 2, ?_, ?_⟩⟩
  · norm_num
  · rw [contains_pointAt_iff]
    rintro (_ | _ | _) <;> norm_num [s, b, insideOn, inside, span, Vec3.get]

end Box

end Segment

end Verdure
