/-
  Verdure.Binary32.Decimal

  The written form of a binary32 number: the fewest decimal digits that read back as the
  number, in positional notation.
-/
import Verdure.Binary32.Basic

namespace Verdure.Binary32

/-- The number `digits · 10 ^ exponent`. -/
structure Decimal where
  digits : Nat
  exponent : Int
  deriving DecidableEq, Repr

namespace Decimal

/-- The decimals with exponent `k` that read back as the binary32 number `m · 2 ^ e`: of the
    two neighbours of the number on the grid of the multiples of `10 ^ k` those inside the
    interval of reals that round to it, the nearer one if both are.

    The interval reaches half a unit of the last place up, and half a unit down or a
    quarter below a power of two.  Its ends belong to it if the significand is even.
    All comparisons are between integers, after both sides are multiplied by the
    denominators. -/
def onGrid? (m : Nat) (e : Int) (k : Int) : Option Decimal :=
  let grid := Nat.pow 10 k.toNat * Nat.pow 2 (2 - e).toNat
  let unit := Nat.pow 2 (e - 2).toNat * Nat.pow 10 (-k).toNat
  let value := 4 * m * unit
  let low := (4 * m - if m = 0x800000 then 1 else 2) * unit
  let high := (4 * m + 2) * unit
  let inside (d : Nat) : Bool :=
    0 < d && if m % 2 = 0 then low ≤ d * grid && d * grid ≤ high
      else low < d * grid && d * grid < high
  let d := value / grid
  match inside d, inside (d + 1) with
  | true, true =>
      some ⟨if value - d * grid < (d + 1) * grid - value then d else d + 1, k⟩
  | true, false => some ⟨d, k⟩
  | false, true => some ⟨d + 1, k⟩
  | false, false => none

/-- The shortest decimal that reads back as the binary32 number `m · 2 ^ e`: the one on the
    coarsest grid that has any.  Every such number is on the grid of the multiples of
    `10 ^ (-149)`. -/
def shortest (m : Nat) (e : Int) : Decimal :=
  ((List.range 189).findSome? fun (i : Nat) => onGrid? m e (39 - i)).getD ⟨0, 0⟩

/-- The decimal in positional notation, without a point if it is integral. -/
def positional (d : Decimal) : String :=
  let text := toString d.digits
  if 0 ≤ d.exponent then text ++ "".pushn '0' d.exponent.toNat
  else
    let places := (-d.exponent).toNat
    if places < text.length then
      String.ofList (text.toList.take (text.length - places)) ++ "." ++
        String.ofList (text.toList.drop (text.length - places))
    else "0." ++ "".pushn '0' (places - text.length) ++ text

end Decimal

/-- The written form of a number. -/
def text (x : Float32) : String :=
  match x.toModel.unpack with
  | .notANumber => "NaN"
  | .infinity .positive => "inf"
  | .infinity .negative => "-inf"
  | .zero .positive => "0"
  | .zero .negative => "-0"
  | .finite .positive m e _ => (Decimal.shortest m e).positional
  | .finite .negative m e _ => "-" ++ (Decimal.shortest m e).positional

end Verdure.Binary32
