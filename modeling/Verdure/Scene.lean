/-
  Verdure.Scene

  What a plant is grown in: the environment it responds to, and the sinks that collect its
  parts.
-/
import Verdure.Geometry.Segment
import Verdure.Space.Mat4

namespace Verdure

/-- How the environment acts on a plant. -/
structure Influences where
  /-- How strongly branches bend toward the sun. -/
  sunlight : Float32 := 0.0
  /-- How strongly branches droop, for each level of depth. -/
  gravity : Float32 := 0.1
  /-- Branches are tested against earlier branches. -/
  collisionCheck : Bool := true
  deriving DecidableEq

/-- The unit vector along the diagonal of the positive octant. -/
def diagonal : Point :=
  let v : Point := .splat 20.0
  v * (1.0 / v.length)

/-- Sinks and environment. -/
structure Scene where
  /-- The frames of the branches. -/
  branches : Array Mat4 := #[]
  /-- The frames of the leaves, by variant.  Without variants, leaves are dropped. -/
  leaves : Array (Array Mat4) := #[]
  /-- The axis of each branch that was tested and placed, if they are asked for. -/
  lines : Option (Array (Segment Float32)) := none
  influences : Influences := {}
  /-- The unit vector toward the sun. -/
  sunDirection : Point := diagonal
  /-- Placements rejected because they collide. -/
  collisionCount : Nat := 0
  deriving DecidableEq

namespace Scene

/-- The scene with a number of empty leaf sinks. -/
def withLeafVariants (scene : Scene) (count : Nat) : Scene :=
  { scene with leaves := Array.replicate count #[] }

/-- The scene with an empty sink for lines. -/
def withLines (scene : Scene) : Scene := { scene with lines := some #[] }

/-- The scene with the sun in a direction.  A vector without direction is kept as zero. -/
def withSunDirection (scene : Scene) (direction : Point) : Scene :=
  { scene with sunDirection := direction.direction }

/-- The number of leaves of all variants. -/
def leafCount (scene : Scene) : Nat :=
  scene.leaves.foldl (fun count variant => count + variant.size) 0

/-- The scene with one more branch. -/
def addBranch (scene : Scene) (frame : Mat4) : Scene :=
  { scene with branches := scene.branches.push frame }

/-- The scene with one more leaf of a variant. -/
def addLeaf (scene : Scene) (variant : Nat) (frame : Mat4) : Scene :=
  { scene with leaves := scene.leaves.modify variant (·.push frame) }

/-- The scene with one more line, if it has a sink for lines. -/
def addLine (scene : Scene) (line : Segment Float32) : Scene :=
  { scene with lines := scene.lines.map (·.push line) }

/-- The scene with every sink emptied and no collisions, the environment unchanged. -/
def clearOutputs (scene : Scene) : Scene :=
  { scene with
    branches := #[]
    leaves := scene.leaves.map fun _ => #[]
    lines := scene.lines.map fun _ => #[]
    collisionCount := 0 }

end Scene

end Verdure
