/-
  Verdure.Noise.Simplex

  Gradient noise over the triangular lattice of the plane.  Three corners take part in a
  value, each with a weight that falls to zero before the next lattice point.
-/
import Verdure.Noise.Lattice
import Verdure.Binary32.Basic

namespace Verdure.Noise

/-- Gradient noise in the plane. -/
structure Simplex where
  /-- Offset into the permutation. -/
  seed : Int32
  deriving DecidableEq

namespace Simplex

/-- The skew from the plane to the square lattice, (√3 - 1) / 2. -/
def skew : Float32 := 0.5 * (1.7320508 - 1.0)

/-- The skew back from the square lattice to the plane, (3 - √3) / 6. -/
def unskew : Float32 := (3.0 - 1.7320508) / 6.0

/-- The scattered value of a corner of the lattice. -/
def corner (noise : Simplex) (i j : Int) : Nat :=
  scatter noise.seed (scatter noise.seed i + j)

/-- What a corner with scattered value `hash` adds at the displacement `(x, y)` from it. -/
def contribution (hash : Nat) (x y : Float32) : Float32 :=
  let t := 0.5 - x * x - y * y
  if t < 0.0 then 0.0
  else
    let t2 := t * t
    t2 * t2 * gradient2 hash x y

/-- The noise at a point, in `[0, 1]`.  Sums of lattice coordinates wrap around in 32 bits. -/
def sample (noise : Simplex) (x y : Float32) : Float32 :=
  let s := (x + y) * skew
  let i := Binary32.floorToInt32 (x + s)
  let j := Binary32.floorToInt32 (y + s)
  let t := Float32.ofInt (Int32.ofInt i + Int32.ofInt j).toInt * unskew
  let x0 := x - (Float32.ofInt i - t)
  let y0 := y - (Float32.ofInt j - t)
  let right := y0 < x0
  let (i1, j1) : Int × Int := if right then (1, 0) else (0, 1)
  let total :=
    contribution (noise.corner i j) x0 y0
      + contribution (noise.corner (i + i1) (j + j1))
          (x0 - Float32.ofInt i1 + unskew) (y0 - Float32.ofInt j1 + unskew)
      + contribution (noise.corner (i + 1) (j + 1))
          (x0 - 1.0 + 2.0 * unskew) (y0 - 1.0 + 2.0 * unskew)
  Scalar.clamp 0.0 1.0 (70.0 * total * 0.5 + 0.5)

/-- The noise at a point, in `[-1, 1]`. -/
def sampleSigned (noise : Simplex) (x y : Float32) : Float32 := noise.sample x y * 2.0 - 1.0

end Simplex

end Verdure.Noise
