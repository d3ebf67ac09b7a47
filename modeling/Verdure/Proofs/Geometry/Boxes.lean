/-
  Verdure.Proofs.Geometry.Boxes

  Boxes as sets of points, in binary32.

  Comparisons of coordinates are exact, so nothing is rounded here.  Of two numbers, infinities
  and zeros of either sign included, the larger one is the least number that is not below either
  (`le_max`, `max_le`), and the smaller one is its mirror image.  Axis by axis that gives a point
  that two boxes share, and the least box with two given points in it.
-/
import Verdure.Proofs.Binary32.Ordinal
import Verdure.Proofs.Geometry.Slabs

namespace Verdure

open Binary32

/-! ## Larger and smaller numbers -/

namespace Binary32

variable {x y z : Float32}

/-- A number, perhaps infinite. -/
def IsNumber (x : Float32) : Prop := x.isNaN = false

instance (x : Float32) : Decidable (IsNumber x) := inferInstanceAs (Decidable (_ = _))

theorem isNumber_iff : IsNumber x ↔ |ordinal x| ≤ top := by
  rw [IsNumber, Bool.eq_false_iff, Ne, isNaN_iff, not_lt]

theorem IsNumber.le_refl (hx : IsNumber x) : x ≤ x := by
  rw [isNumber_iff] at hx
  exact (le_iff_ordinal hx hx).mpr le_rfl

theorem IsNumber.le_total (hx : IsNumber x) (hy : IsNumber y) : x ≤ y ∨ y ≤ x := by
  rw [isNumber_iff] at hx hy
  rw [le_iff_ordinal hx hy, le_iff_ordinal hy hx]
  exact Int.le_total _ _

theorem isNumber_of_le (h : x ≤ y) : IsNumber x ∧ IsNumber y :=
  (abs_ordinal_le_of_le h).imp isNumber_iff.mpr isNumber_iff.mpr

theorem max_cases (hx : IsNumber x) (hy : IsNumber y) :
    y ≤ x ∧ Scalar.max x y = x ∨ x ≤ y ∧ Scalar.max x y = y := by
  unfold Scalar.max
  by_cases h : y ≤ x
  · exact .inl ⟨h, if_pos h⟩
  · have h_le := (hx.le_total hy).resolve_right h
    exact .inr ⟨h_le, by rw [if_neg h, if_pos h_le]⟩

theorem min_cases (hx : IsNumber x) (hy : IsNumber y) :
    x ≤ y ∧ Scalar.min x y = x ∨ y ≤ x ∧ Scalar.min x y = y := by
  unfold Scalar.min
  by_cases h : x ≤ y
  · exact .inl ⟨h, if_pos h⟩
  · have h_le := (hx.le_total hy).resolve_left h
    exact .inr ⟨h_le, by rw [if_neg h, if_pos h_le]⟩

theorem le_max (hx : IsNumber x) (hy : IsNumber y) :
    x ≤ Scalar.max x y ∧ y ≤ Scalar.max x y := by
  rcases max_cases hx hy with ⟨h_le, h_eq⟩ | ⟨h_le, h_eq⟩
  · rw [h_eq]
    exact ⟨hx.le_refl, h_le⟩
  · rw [h_eq]
    exact ⟨h_le, hy.le_refl⟩

theorem min_le (hx : IsNumber x) (hy : IsNumber y) :
    Scalar.min x y ≤ x ∧ Scalar.min x y ≤ y := by
  rcases min_cases hx hy with ⟨h_le, h_eq⟩ | ⟨h_le, h_eq⟩
  · rw [h_eq]
    exact ⟨hx.le_refl, h_le⟩
  · rw [h_eq]
    exact ⟨h_le, hy.le_refl⟩

theorem max_le (hx : x ≤ z) (hy : y ≤ z) : Scalar.max x y ≤ z := by
  rcases max_cases (isNumber_of_le hx).1 (isNumber_of_le hy).1 with ⟨-, h_eq⟩ | ⟨-, h_eq⟩
  · rwa [h_eq]
  · rwa [h_eq]

theorem le_min (hx : z ≤ x) (hy : z ≤ y) : z ≤ Scalar.min x y := by
  rcases min_cases (isNumber_of_le hx).2 (isNumber_of_le hy).2 with ⟨-, h_eq⟩ | ⟨-, h_eq⟩
  · rwa [h_eq]
  · rwa [h_eq]

end Binary32

/-! ## Points of boxes -/

/-- No coordinate is NaN. -/
def Vec3.IsNumber (p : Point) : Prop := ∀ axis, Binary32.IsNumber (p.get axis)

namespace Box

variable {a b c : Box Float32} {p q r : Point}

/-- Boxes that pass the test share a point: on each axis the larger of the lower ends. -/
theorem contains_max_lower (ha : a.Ordered) (hb : b.Ordered) (h : a.meets b = true) :
    a.contains (a.lower.max b.lower) = true ∧ b.contains (a.lower.max b.lower) = true := by
  have h_meets := meets_iff.mp h
  have h_lower (axis : Axis) := le_max (isNumber_of_le (ha axis)).1 (isNumber_of_le (hb axis)).1
  simp only [contains_iff, Vec3.get_max]
  constructor
  · exact fun axis => ⟨(h_lower axis).1, max_le (ha axis) (h_meets axis).2⟩
  · exact fun axis => ⟨(h_lower axis).2, max_le (h_meets axis).1 (hb axis)⟩

theorem meets_of_contains (ha : a.contains p = true) (hb : b.contains p = true) :
    a.meets b = true := by
  rw [contains_iff] at ha hb
  exact meets_iff.mpr fun axis => ⟨le_trans_ordinal (ha axis).1 (hb axis).2,
    le_trans_ordinal (hb axis).1 (ha axis).2⟩

/-- A box with a point in it has its corners in order. -/
theorem ordered_of_contains (h : b.contains p = true) : b.Ordered := by
  rw [contains_iff] at h
  exact fun axis => le_trans_ordinal (h axis).1 (h axis).2

theorem contains_hull (hp : p.IsNumber) (hq : q.IsNumber) :
    (hull p q).contains p = true ∧ (hull p q).contains q = true := by
  simp only [contains_iff, hull, Vec3.get_min, Vec3.get_max]
  constructor
  · exact fun axis => ⟨(min_le (hp axis) (hq axis)).1, (le_max (hp axis) (hq axis)).1⟩
  · exact fun axis => ⟨(min_le (hp axis) (hq axis)).2, (le_max (hp axis) (hq axis)).2⟩

theorem contains_of_contains_hull (hp : c.contains p = true) (hq : c.contains q = true)
    (hr : (hull p q).contains r = true) : c.contains r = true := by
  simp only [contains_iff, hull, Vec3.get_min, Vec3.get_max] at hp hq hr ⊢
  exact fun axis => ⟨le_trans_ordinal (le_min (hp axis).1 (hq axis).1) (hr axis).1,
    le_trans_ordinal (hr axis).2 (max_le (hp axis).2 (hq axis).2)⟩

/-- **Boxes as sets of points.**  Let two boxes have numbers for coordinates, infinities
    included, and their corners in order on each axis.  They pass the test for common points
    exactly if there is one, which may be on the faces of both.

    The hull of two points whose coordinates are numbers is such a box, it has both points in
    it, and it is part of every box that has. -/
theorem common_points_and_hull :
    (∀ a b : Box Float32, a.Ordered → b.Ordered →
      (a.meets b = true ↔ ∃ p, a.contains p = true ∧ b.contains p = true)) ∧
    ∀ p q : Point, p.IsNumber → q.IsNumber →
      (hull p q).Ordered ∧ (hull p q).contains p = true ∧ (hull p q).contains q = true ∧
      ∀ c : Box Float32, c.contains p = true → c.contains q = true →
        ∀ r, (hull p q).contains r = true → c.contains r = true := by
  refine ⟨fun a b ha hb => ⟨fun h => ⟨_, contains_max_lower ha hb h⟩, ?_⟩, fun p q hp hq => ?_⟩
  · rintro ⟨p, h_a, h_b⟩
    exact meets_of_contains h_a h_b
  · obtain ⟨h_left, h_right⟩ := contains_hull hp hq
    exact ⟨ordered_of_contains h_left, h_left, h_right,
      fun c h_p h_q r h_r => contains_of_contains_hull h_p h_q h_r⟩

/-- Boxes with infinite corners that share a single point, between zeros of different sign, and
    the hull of two points inside a half space. -/
theorem common_points_and_hull_touching :
    let infinity : Float32 := 1.0 / 0.0
    let a : Box Float32 := ⟨⟨-infinity, 0.0, 0.5⟩, ⟨-0.0, 1.0, infinity⟩⟩
    let b : Box Float32 := ⟨⟨0.0, -infinity, 0.0⟩, ⟨infinity, -0.0, 0.5⟩⟩
    let p : Point := ⟨infinity, -1.0, 0.0⟩
    let q : Point := ⟨2.0, 3.0, -0.0⟩
    a.Ordered ∧ b.Ordered ∧ (∃ r, a.contains r = true ∧ b.contains r = true) ∧
      p.IsNumber ∧ q.IsNumber ∧ (hull p q).contains p = true ∧ (hull p q).contains q = true ∧
      ∀ r, (hull p q).contains r = true →
        contains ⟨⟨1.0, -infinity, 0.0⟩, ⟨infinity, infinity, 0.0⟩⟩ r = true := by
  intro infinity a b p q
  have h_a : a.Ordered := by
    intro axis
    cases axis <;> decide
  have h_b : b.Ordered := by
    intro axis
    cases axis <;> decide
  have h_p : p.IsNumber := by
    intro axis
    cases axis <;> decide
  have h_q : q.IsNumber := by
    intro axis
    cases axis <;> decide
  obtain ⟨-, h_left, h_right, h_least⟩ := common_points_and_hull.2 p q h_p h_q
  exact ⟨h_a, h_b, (common_points_and_hull.1 a b h_a h_b).mp (by decide), h_p, h_q, h_left,
    h_right, h_least _ (by decide) (by decide)⟩

end Box

end Verdure
