/-
  Verdure.Noise.Lattice

  What gradient noise is made of: the fixed permutation that scatters the points of an
  integer lattice, the gradients chosen by a scattered point, and the curve that blends
  them.
-/
import Verdure.Scalar

namespace Verdure.Noise

set_option maxRecDepth 4096 in
/-- The permutation of `0 … 255` that scatters lattice points. -/
def permutation : Vector Nat 256 := #v[
  151, 160, 137, 91, 90, 15, 131, 13, 201, 95, 96, 53, 194, 233, 7, 225,
  140, 36, 103, 30, 69, 142, 8, 99, 37, 240, 21, 10, 23, 190, 6, 148,
  247, 120, 234, 75, 0, 26, 197, 62, 94, 252, 219, 203, 117, 35, 11, 32,
  57, 177, 33, 88, 237, 149, 56, 87, 174, 20, 125, 136, 171, 168, 68, 175,
  74, 165, 71, 134, 139, 48, 27, 166, 77, 146, 158, 231, 83, 111, 229, 122,
  60, 211, 133, 230, 220, 105, 92, 41, 55, 46, 245, 40, 244, 102, 143, 54,
  65, 25, 63, 161, 1, 216, 80, 73, 209, 76, 132, 187, 208, 89, 18, 169,
  200, 196, 135, 130, 116, 188, 159, 86, 164, 100, 109, 198, 173, 186, 3, 64,
  52, 217, 226, 250, 124, 123, 5, 202, 38, 147, 118, 126, 255, 82, 85, 212,
  207, 206, 59, 227, 47, 16, 58, 17, 182, 189, 28, 42, 223, 183, 170, 213,
  119, 248, 152, 2, 44, 154, 163, 70, 221, 153, 101, 155, 167, 43, 172, 9,
  129, 22, 39, 253, 19, 98, 108, 110, 79, 113, 224, 232, 178, 185, 112, 104,
  218, 246, 97, 228, 251, 34, 242, 193, 238, 210, 144, 12, 191, 179, 162, 241,
  81, 51, 145, 235, 249, 14, 239, 107, 49, 192, 214, 31, 181, 199, 106, 157,
  184, 84, 204, 176, 115, 121, 50, 45, 127, 4, 150, 254, 138, 236, 205, 93,
  222, 114, 67, 29, 24, 72, 243, 141, 128, 195, 78, 66, 215, 61, 156, 180]

/-- The scattered value of a lattice coordinate: what the permutation has at the last 8 bits of
    the sum of coordinate and seed, which wraps around in 32 bits. -/
@[inline] def scatter (seed : Int32) (i : Int) : Nat :=
  permutation.get ⟨((Int32.ofInt i + seed).toUInt32 &&& 255).toNat, by
    rw [UInt32.toNat_and]
    exact Nat.lt_of_le_of_lt Nat.and_le_right (by decide)⟩

section Gradients

variable {α : Type} [Scalar α]

/-- The value at `(x, y)` of the plane gradient that `hash` chooses among eight. -/
@[specialize] def gradient2 (hash : Nat) (x y : α) : α :=
  let h := hash % 8
  let u := if h < 4 then x else y
  let v := if h < 4 then y else x
  (if h % 2 = 1 then -u else u) + (if h / 2 % 2 = 1 then -2.0 * v else 2.0 * v)

/-- The value at `(x, y, z)` of the space gradient that `hash` chooses among sixteen. -/
@[specialize] def gradient3 (hash : Nat) (x y z : α) : α :=
  let h := hash % 16
  let u := if h < 8 then x else y
  let v := if h < 4 then y else if h = 12 ∨ h = 14 then x else z
  (if h % 2 = 1 then -u else u) + (if h / 2 % 2 = 1 then -v else v)

/-- The blending curve `6 t⁵ - 15 t⁴ + 10 t³`. -/
@[inline] def fade (t : α) : α := t * t * t * (t * (t * 6.0 - 15.0) + 10.0)

end Gradients

end Verdure.Noise
