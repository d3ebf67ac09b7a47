/-
  Verdure.Geometry.Box

  Closed boxes with faces along the coordinate planes.
-/
import Verdure.Space.Vec3

namespace Verdure

/-- The closed box between two corners. -/
structure Box (α : Type) where
  lower : Vec3 α
  upper : Vec3 α
  deriving DecidableEq

namespace Box

variable {α : Type} [Scalar α]

/-- The box around a centre that reaches `half` far along each axis. -/
def around (center half : Vec3 α) : Box α := ⟨center - half, center + half⟩

/-- The smallest box with both points in it. -/
def hull (p q : Vec3 α) : Box α := ⟨p.min q, p.max q⟩

/-- The middle of the box. -/
def center (b : Box α) : Vec3 α := (b.lower + b.upper) * (0.5 : α)

/-- The box grown by a margin on every side. -/
def expand (b : Box α) (margin : α) : Box α :=
  ⟨b.lower - .splat margin, b.upper + .splat margin⟩

/-- The point lies in the box, faces included. -/
def contains (b : Box α) (p : Vec3 α) : Bool :=
  Vec3.all₂ (· ≤ ·) b.lower p && Vec3.all₂ (· ≤ ·) p b.upper

theorem contains_iff {b : Box α} {p : Vec3 α} : b.contains p = true ↔
    ∀ axis, b.lower.get axis ≤ p.get axis ∧ p.get axis ≤ b.upper.get axis := by
  simp only [contains, Bool.and_eq_true, Vec3.all₂_iff, decide_eq_true_eq, forall_and]

/-- The boxes share a point by the test on each axis.  Touching faces count. -/
def meets (a b : Box α) : Bool :=
  Vec3.all₂ (· ≤ ·) a.lower b.upper && Vec3.all₂ (· ≤ ·) b.lower a.upper

theorem meets_iff {a b : Box α} : a.meets b = true ↔
    ∀ axis, a.lower.get axis ≤ b.upper.get axis ∧ b.lower.get axis ≤ a.upper.get axis := by
  simp only [meets, Bool.and_eq_true, Vec3.all₂_iff, decide_eq_true_eq, forall_and]

end Box

end Verdure
