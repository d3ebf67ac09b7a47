/-
  Verdure.Binary32.Basic

  Binary32 numbers seen from outside their arithmetic: the total order that sorting
  uses, the greatest integer not above a number, and conversions from and to integers.
  Everything is read off the sign, significand and exponent of a number, so each
  function can be evaluated and reasoned about.
-/
import Verdure.Scalar

namespace Verdure.Binary32

/-! ## Total order -/

/-- The bits of a number read as an integer that ascends with the number: the bits
    themselves when the sign is positive, counted down from `-1` when it is negative.
    Negative zero comes just before positive zero, and NaN after infinity. -/
def orderKey (x : Float32) : Int :=
  let bits := x.toBits.toNat
  if bits < 0x80000000 then bits else 0x7fffffff - bits

/-- The total order of binary32 numbers. -/
def totalLe (x y : Float32) : Bool := orderKey x ≤ orderKey y

theorem totalLe_trans {x y z : Float32} (hxy : totalLe x y = true) (hyz : totalLe y z = true) :
    totalLe x z = true := by
  simp only [totalLe, decide_eq_true_eq] at *
  omega

theorem totalLe_total (x y : Float32) : (totalLe x y || totalLe y x) = true := by
  simp only [totalLe, Bool.or_eq_true, decide_eq_true_eq]
  omega

instance : Scalar Float32 where
  decidableLT := inferInstance
  decidableLE := inferInstance
  sqrt := Float32.sqrt
  totalLe := totalLe

/-! ## Integers -/

/-- The greatest integer not above `m · 2 ^ e`. -/
def floorDyadic (m e : Int) : Int :=
  if 0 ≤ e then m <<< e.toNat else m >>> (-e).toNat

/-- The greatest integral number not above `x`.  Zeros, infinities and NaN are kept. -/
def floor (x : Float32) : Float32 :=
  match x.toModel.unpack with
  | .finite sign m e _ => if 0 ≤ e then x else Float32.ofInt (floorDyadic (sign.apply m) e)
  | _ => x

/-- The greatest integer not above `x`, moved into the range of 32-bit signed integers.
    The infinities give the ends of the range, and NaN gives `0`. -/
def floorToInt32 (x : Float32) : Int :=
  match x.toModel.unpack with
  | .finite sign m e _ =>
      max (-0x80000000) (min 0x7fffffff (floorDyadic (sign.apply m) e))
  | .infinity .positive => 0x7fffffff
  | .infinity .negative => -0x80000000
  | .zero _ | .notANumber => 0

/-- The integral part of `x` as a natural number: `0` for a negative number and for NaN. -/
def truncToNat (x : Float32) : Nat := x.toUInt64.toNat

end Verdure.Binary32
