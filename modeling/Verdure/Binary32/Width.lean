/-
  Verdure.Binary32.Width

  Between binary32 and binary64.  Widening keeps the value of every number; narrowing
  rounds to nearest, ties to the even significand, and numbers beyond the range become
  infinite.
-/
import Verdure.Binary32.Basic

namespace Verdure.Binary32

open Float.Model (Format UnpackedFloat)

/-- `u` rounded to the significands and exponents of `format`. -/
def roundTo (format : Format) (u : UnpackedFloat) : UnpackedFloat :=
  match u with
  | .finite sign m e _ => UnpackedFloat.round format sign m e
  | u => u

/-- The binary64 number with the value of `x`. -/
def widen (x : Float32) : Float :=
  .ofModel (.pack (roundTo .binary64 x.toModel.unpack))

/-- The binary32 number nearest to `x`. -/
def narrow (x : Float) : Float32 :=
  .ofModel (.pack (roundTo .binary32 x.toModel.unpack))

end Verdure.Binary32
