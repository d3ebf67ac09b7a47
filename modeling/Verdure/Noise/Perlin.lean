/-
  Verdure.Noise.Perlin

  Gradient noise over the cubic lattice.  The value inside a cell blends the gradients
  of its eight corners, so it depends on the cell and on the position in it only.
-/
import Verdure.Noise.Lattice
import Verdure.Space.Vec3

namespace Verdure.Noise

/-- Gradient noise in space. -/
structure Perlin where
  /-- Offset into the permutation. -/
  seed : Int32
  deriving DecidableEq

namespace Perlin

/-- The scattered value of a corner of the lattice. -/
def corner (noise : Perlin) (x y z : Int) : Nat :=
  scatter noise.seed (scatter noise.seed (scatter noise.seed x + y) + z)

/-- The blend of the corner gradients of the lattice cell whose lowest corner is
    `(x, y, z)`, at the position `f` in the cell. -/
@[specialize] def cellValue {α : Type} [Scalar α] (noise : Perlin) (x y z : Int) (f : Vec3 α) :
    α :=
  let u := fade f.x
  let v := fade f.y
  let w := fade f.z
  let near :=
    Scalar.lerp
      (Scalar.lerp (gradient3 (noise.corner x y z) f.x f.y f.z)
        (gradient3 (noise.corner (x + 1) y z) (f.x - 1.0) f.y f.z) u)
      (Scalar.lerp (gradient3 (noise.corner x (y + 1) z) f.x (f.y - 1.0) f.z)
        (gradient3 (noise.corner (x + 1) (y + 1) z) (f.x - 1.0) (f.y - 1.0) f.z) u)
      v
  let far :=
    Scalar.lerp
      (Scalar.lerp (gradient3 (noise.corner x y (z + 1)) f.x f.y (f.z - 1.0))
        (gradient3 (noise.corner (x + 1) y (z + 1)) (f.x - 1.0) f.y (f.z - 1.0)) u)
      (Scalar.lerp (gradient3 (noise.corner x (y + 1) (z + 1)) f.x (f.y - 1.0) (f.z - 1.0))
        (gradient3 (noise.corner (x + 1) (y + 1) (z + 1)) (f.x - 1.0) (f.y - 1.0) (f.z - 1.0))
        u)
      v
  Scalar.lerp near far w

/-- The noise at the position `f` in a lattice cell, in `[0, 1]`. -/
@[specialize] def inCell {α : Type} [Scalar α] (noise : Perlin) (x y z : Int) (f : Vec3 α) : α :=
  Scalar.clamp 0.0 1.0 (noise.cellValue x y z f * 0.5 + 0.5)

/-- The noise at a point, in `[0, 1]`.  A coordinate is split into that of a lattice point, by
    `cell`, and the part of it above its `floor`. -/
@[specialize] def sampleBy {α : Type} [Scalar α] (floor : α → α) (cell : α → Int)
    (noise : Perlin) (p : Vec3 α) : α :=
  noise.inCell (cell p.x) (cell p.y) (cell p.z)
    ⟨p.x - floor p.x, p.y - floor p.y, p.z - floor p.z⟩

/-- The noise at a point, in `[0, 1]`. -/
def sample (noise : Perlin) (p : Point) : Float32 :=
  noise.sampleBy Binary32.floor Binary32.floorToInt32 p

/-- The noise at a point, in `[-1, 1]`. -/
def sampleSigned (noise : Perlin) (p : Point) : Float32 := noise.sample p * 2.0 - 1.0

end Perlin

end Verdure.Noise
