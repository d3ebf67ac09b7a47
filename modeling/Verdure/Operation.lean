/-
  Verdure.Operation

  What a symbol can make the turtle do, with the parameters of each operation.
-/
import Verdure.Binary32.Basic

namespace Verdure

/-- How branches are drawn. -/
structure BranchStyle where
  /-- The factor from depth to falloff. -/
  depthFalloff : Float32 := 0.45
  /-- The length of a branch with falloff 1. -/
  baseTravel : Float32 := 1.0
  /-- The thickness of a branch with falloff 1. -/
  baseScale : Float32 := 0.1
  /-- The greatest depth at which branches have the shallow sizes. -/
  shallowDepth : Nat := 2
  /-- The length of shallow branches. -/
  shallowTravel : Float32 := 0.4
  /-- The thickness of shallow branches. -/
  shallowScale : Float32 := 0.1
  /-- Branches that start below this height are dropped. -/
  minHeight : Float32 := 0.0
  /-- The gap between the start of a branch and the start of its bounds. -/
  segmentInset : Float32 := 0.05
  /-- The part of the length at which the bounds end. -/
  segmentReach : Float32 := 0.95
  /-- The number of anchors of earlier branches looked at. -/
  neighbors : Nat := 20
  /-- Branches nearer than this collide. -/
  clearance : Float32 := 0.015
  deriving DecidableEq

/-- The length and the thickness of a branch at a depth.  Beyond the shallow depths the
    length falls with the square of the falloff and the thickness with the falloff. -/
def BranchStyle.dimensions (style : BranchStyle) (depth : Nat) : Float32 × Float32 :=
  if depth ≤ style.shallowDepth then (style.shallowTravel, style.shallowScale)
  else
    let falloff := depth.toFloat32 * style.depthFalloff
    (style.baseTravel / (falloff * falloff), style.baseScale / falloff)

/-- How leaves are drawn. -/
structure LeafStyle where
  /-- Leaves at a smaller depth are skipped. -/
  minDepth : Nat := 3
  /-- The roll about the local `z` axis, in degrees. -/
  angle : Float32 := 33.0
  /-- The size. -/
  scale : Float32 := 0.3
  /-- Leaves below this height are dropped. -/
  minHeight : Float32 := 1.0
  /-- The spatial frequency of the noise that picks the variant. -/
  variantFrequency : Float32 := 23.0
  /-- The edge length of the bounds of a leaf, if leaves are tested against earlier leaves. -/
  minSpacing : Option Float32 := none
  /-- The number of anchors of earlier leaves looked at. -/
  neighbors : Nat := 20
  deriving DecidableEq

/-- The variant, of `count`, for a noise value in `[-1, 1]`. -/
def LeafStyle.variant (noise : Float32) (count : Nat) : Nat :=
  let last := count - 1
  let t := Scalar.clamp 0.0 1.0 ((noise + 1.0) / 2.0)
  min (Binary32.truncToNat (last.toFloat32 * t)) last

/-- A turn by an angle, in degrees. -/
structure Turn where
  angle : Float32
  /-- The greatest noise added to the angle, in degrees. -/
  jitter : Float32 := 5.0
  deriving DecidableEq

/-- How strongly sun and gravity bend a plant. -/
structure Pull where
  /-- Degrees for a unit of sunlight. -/
  sunAngle : Float32 := 10.0
  /-- Degrees for a unit of gravity and a level of depth. -/
  gravityAngle : Float32 := 20.0
  deriving DecidableEq

/-- What a symbol does. -/
inductive Operation where
  /-- Place a branch and walk to its tip. -/
  | branch (style : BranchStyle)
  /-- Place a leaf. -/
  | leaf (style : LeafStyle)
  /-- Turn about the local `y` axis. -/
  | rotate (turn : Turn)
  /-- Turn about the local `z` axis. -/
  | tilt (turn : Turn)
  /-- Save the turtle and open a level. -/
  | push
  /-- Restore the turtle and close a level. -/
  | pop
  /-- Bend under sun and gravity. -/
  | tick (pull : Pull)
  deriving DecidableEq

namespace Operation

/-- The turn about `y` where no angle is given. -/
def defaultRotate : Turn := { angle := 45.0 }

/-- The turn about `z` where no angle is given. -/
def defaultTilt : Turn := { angle := 20.0 }

end Operation

end Verdure
