/-
  Verdure.Space.Mat4

  Homogeneous coordinates and the affine maps of space, as 4 by 4 matrices kept by
  columns.
-/
import Verdure.Space.Vec3

namespace Verdure

/-- A point (`w = 1`) or a direction (`w = 0`) in homogeneous coordinates. -/
structure Vec4 where
  x : Float32
  y : Float32
  z : Float32
  w : Float32
  deriving DecidableEq

namespace Vec4

instance : Add Vec4 := ⟨fun v w => ⟨v.x + w.x, v.y + w.y, v.z + w.z, v.w + w.w⟩⟩

/-- The vector scaled by a factor. -/
def scale (v : Vec4) (k : Float32) : Vec4 := ⟨v.x * k, v.y * k, v.z * k, v.w * k⟩

instance : HMul Vec4 Float32 Vec4 := ⟨scale⟩

/-- The first three coordinates. -/
def truncate (v : Vec4) : Point := ⟨v.x, v.y, v.z⟩

/-- A point or direction of space with a given fourth coordinate. -/
def ofVec3 (p : Point) (w : Float32) : Vec4 := ⟨p.x, p.y, p.z, w⟩

/-- The scalar product, summed in pairs. -/
def dot (v w : Vec4) : Float32 := (v.x * w.x + v.z * w.z) + (v.y * w.y + v.w * w.w)

/-- The unit vector along `v`, or zero if the reciprocal of the length of `v` is not a
    positive finite number. -/
def direction (v : Vec4) : Vec4 :=
  let r := 1.0 / Float32.sqrt (dot v v)
  if r.isFinite && 0.0 < r then v * r else ⟨0.0, 0.0, 0.0, 0.0⟩

end Vec4

/-- A linear map of homogeneous coordinates, given by the images of the four unit
    vectors. -/
structure Mat4 where
  xAxis : Vec4
  yAxis : Vec4
  zAxis : Vec4
  wAxis : Vec4
  deriving DecidableEq

namespace Mat4

/-- The map that moves nothing. -/
def identity : Mat4 :=
  ⟨⟨1.0, 0.0, 0.0, 0.0⟩, ⟨0.0, 1.0, 0.0, 0.0⟩, ⟨0.0, 0.0, 1.0, 0.0⟩, ⟨0.0, 0.0, 0.0, 1.0⟩⟩

/-- The image of a vector: the columns weighted by its coordinates, summed from `x` to `w`. -/
def apply (m : Mat4) (v : Vec4) : Vec4 :=
  m.xAxis * v.x + m.yAxis * v.y + m.zAxis * v.z + m.wAxis * v.w

/-- The composition that applies `n` first. -/
def compose (m n : Mat4) : Mat4 :=
  ⟨m.apply n.xAxis, m.apply n.yAxis, m.apply n.zAxis, m.apply n.wAxis⟩

instance : HMul Mat4 Vec4 Vec4 := ⟨apply⟩

instance : Mul Mat4 := ⟨compose⟩

/-- The image of a point under an affine map. -/
def applyPoint (m : Mat4) (p : Point) : Point :=
  (m.wAxis + (m.zAxis * p.z + (m.yAxis * p.y + m.xAxis * p.x))).truncate

/-! ## Constructions -/

/-- The shift of every point by `t`. -/
def shift (t : Point) : Mat4 := { identity with wAxis := .ofVec3 t 1.0 }

/-- The scaling by a factor for each axis. -/
def scaling (s : Point) : Mat4 :=
  ⟨⟨s.x, 0.0, 0.0, 0.0⟩, ⟨0.0, s.y, 0.0, 0.0⟩, ⟨0.0, 0.0, s.z, 0.0⟩, ⟨0.0, 0.0, 0.0, 1.0⟩⟩

/-- The rotation about the `x` axis by an angle in radians. -/
def rotationX (angle : Float32) : Mat4 :=
  let s := angle.sin
  let c := angle.cos
  { identity with yAxis := ⟨0.0, c, s, 0.0⟩, zAxis := ⟨0.0, -s, c, 0.0⟩ }

/-- The rotation about the `y` axis by an angle in radians. -/
def rotationY (angle : Float32) : Mat4 :=
  let s := angle.sin
  let c := angle.cos
  { identity with xAxis := ⟨c, 0.0, -s, 0.0⟩, zAxis := ⟨s, 0.0, c, 0.0⟩ }

/-- The rotation about the `z` axis by an angle in radians. -/
def rotationZ (angle : Float32) : Mat4 :=
  let s := angle.sin
  let c := angle.cos
  { identity with xAxis := ⟨c, s, 0.0, 0.0⟩, yAxis := ⟨-s, c, 0.0, 0.0⟩ }

/-- The rotation about the line through the origin along the unit vector `a`, by an angle
    in radians. -/
def rotationAbout (a : Point) (angle : Float32) : Mat4 :=
  let s := angle.sin
  let c := angle.cos
  let k := 1.0 - c
  let xy := a.x * a.y * k
  let xz := a.x * a.z * k
  let yz := a.y * a.z * k
  ⟨⟨a.x * a.x * k + c, xy + a.z * s, xz - a.y * s, 0.0⟩,
   ⟨xy - a.z * s, a.y * a.y * k + c, yz + a.x * s, 0.0⟩,
   ⟨xz + a.y * s, yz - a.x * s, a.z * a.z * k + c, 0.0⟩,
   identity.wAxis⟩

/-- An angle in degrees, in radians: the angle times the binary32 number nearest to π / 180. -/
def radians (degrees : Float32) : Float32 := degrees * Float32.ofBits 0x3c8efa35

end Mat4

end Verdure
