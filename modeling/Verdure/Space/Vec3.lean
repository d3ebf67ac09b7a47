/-
  Verdure.Space.Vec3

  Points and directions of space, with coordinates in any `Scalar`.
-/
import Verdure.Binary32.Basic

namespace Verdure

/-- The three coordinate axes. -/
inductive Axis where
  | x
  | y
  | z
  deriving DecidableEq, Repr

namespace Axis

/-- The axes in turn: `x` at depths `0`, `3`, `6`, …, and `y` and `z` after it. -/
def atDepth (n : Nat) : Axis :=
  match n % 3 with
  | 0 => .x
  | 1 => .y
  | _ => .z

end Axis

/-- A point or a direction. -/
structure Vec3 (α : Type) where
  x : α
  y : α
  z : α
  deriving DecidableEq

/-- Points of the space plants grow in. -/
abbrev Point := Vec3 Float32

namespace Vec3

variable {α : Type}

/-- The coordinate along an axis. -/
@[inline] def get (v : Vec3 α) : Axis → α
  | .x => v.x
  | .y => v.y
  | .z => v.z

/-- The vector with three equal coordinates. -/
@[inline] def splat (a : α) : Vec3 α := ⟨a, a, a⟩

/-- Two vectors combined coordinate by coordinate. -/
@[inline] def zipWith {β γ : Type} (f : α → β → γ) (v : Vec3 α) (w : Vec3 β) : Vec3 γ :=
  ⟨f v.x w.x, f v.y w.y, f v.z w.z⟩

theorem get_zipWith {β γ : Type} (f : α → β → γ) (v : Vec3 α) (w : Vec3 β) (axis : Axis) :
    (zipWith f v w).get axis = f (v.get axis) (w.get axis) := by
  cases axis <;> rfl

/-- `p` holds of the coordinates of two vectors on every axis. -/
@[inline] def all₂ (p : α → α → Bool) (v w : Vec3 α) : Bool :=
  p v.x w.x && p v.y w.y && p v.z w.z

theorem all₂_iff {p : α → α → Bool} {v w : Vec3 α} :
    all₂ p v w = true ↔ ∀ axis, p (v.get axis) (w.get axis) = true := by
  rw [all₂, Bool.and_eq_true, Bool.and_eq_true]
  constructor
  · rintro ⟨⟨h_x, h_y⟩, h_z⟩ axis
    cases axis with
    | x => exact h_x
    | y => exact h_y
    | z => exact h_z
  · exact fun h => ⟨⟨h .x, h .y⟩, h .z⟩

variable [Scalar α]

instance : Add (Vec3 α) := ⟨zipWith (· + ·)⟩

instance : Sub (Vec3 α) := ⟨zipWith (· - ·)⟩

/-- The vector scaled by a factor. -/
@[inline] def scale (v : Vec3 α) (k : α) : Vec3 α := ⟨v.x * k, v.y * k, v.z * k⟩

instance : HMul (Vec3 α) α (Vec3 α) := ⟨scale⟩

/-- The coordinate-wise smaller of two vectors. -/
@[inline] def min (v w : Vec3 α) : Vec3 α := zipWith Scalar.min v w

/-- The coordinate-wise larger of two vectors. -/
@[inline] def max (v w : Vec3 α) : Vec3 α := zipWith Scalar.max v w

theorem get_min (v w : Vec3 α) (axis : Axis) :
    (v.min w).get axis = Scalar.min (v.get axis) (w.get axis) :=
  get_zipWith Scalar.min v w axis

theorem get_max (v w : Vec3 α) (axis : Axis) :
    (v.max w).get axis = Scalar.max (v.get axis) (w.get axis) :=
  get_zipWith Scalar.max v w axis

/-- The scalar product, summed from `x` to `z`. -/
@[inline] def dot (v w : Vec3 α) : α := v.x * w.x + v.y * w.y + v.z * w.z

/-- The vector product. -/
@[inline] def cross (v w : Vec3 α) : Vec3 α :=
  ⟨v.y * w.z - w.y * v.z, v.z * w.x - w.z * v.x, v.x * w.y - w.x * v.y⟩

/-- The Euclidean length. -/
@[inline] def length (v : Vec3 α) : α := Scalar.sqrt (dot v v)

/-- The distance between two points. -/
@[inline] def distance (v w : Vec3 α) : α := length (v - w)

/-- The square of the distance between two points. -/
@[inline] def distanceSquared (v w : Vec3 α) : α := dot (v - w) (v - w)

/-! ## Directions -/

/-- The unit vector along `v`, if the reciprocal of the length of `v` is a positive finite
    number. -/
def direction? (v : Point) : Option Point :=
  let r := 1.0 / length v
  if r.isFinite && 0.0 < r then some (v * r) else none

/-- The unit vector along `v`, or zero if `v` has no direction. -/
def direction (v : Point) : Point := v.direction?.getD (splat 0.0)

end Vec3

end Verdure
