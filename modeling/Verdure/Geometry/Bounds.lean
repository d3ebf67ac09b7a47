/-
  Verdure.Geometry.Bounds

  The volume one placed instance is taken to fill, and when two of them collide.
-/
import Verdure.Geometry.Segment

namespace Verdure

/-- The bounds of a placed instance: a box, or the axis of a thin instance. -/
inductive Bounds (α : Type) where
  | box (box : Box α)
  | segment (segment : Segment α)
  deriving DecidableEq

namespace Bounds

variable {α : Type} [Scalar α]

/-- The middle of the bounds. -/
def center : Bounds α → Vec3 α
  | .box b => b.center
  | .segment s => s.midpoint

/-- Two bounds collide.  Boxes collide when they share a point, segments when they are
    nearer than `epsilon`, and a segment and a box when the segment enters the box grown by
    `epsilon`. -/
@[specialize] def overlaps (a b : Bounds α) (epsilon : α) : Bool :=
  match a, b with
  | .box a, .box b => a.meets b
  | .segment a, .segment b => a.distance b < epsilon
  | .box b, .segment s => s.meetsBox (b.expand epsilon)
  | .segment s, .box b => s.meetsBox (b.expand epsilon)

end Bounds

end Verdure
