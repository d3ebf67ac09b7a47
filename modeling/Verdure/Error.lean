/-
  Verdure.Error

  What can go wrong when a plant is described, derived or grown.
-/
import Verdure.Binary32.Decimal

namespace Verdure

/-- The causes of a failure. -/
inductive PlantError where
  /-- A restore was reached with nothing saved. -/
  | stackUnderflow (index : Nat)
  /-- A production has a weight that cannot take part in a weighted choice. -/
  | invalidWeight (symbol : Char) (weight : Float32)
  /-- A choice was to be made among no productions. -/
  | emptyProductionSet (symbol : Char)
  /-- A choice was to be made among productions whose weights do not add up to a positive
      number. -/
  | nonPositiveTotal (symbol : Char) (total : Float32)
  deriving DecidableEq

/-- The text of an error. -/
def PlantError.message : PlantError → String
  | .stackUnderflow index =>
      s!"unbalanced derivation: restore at symbol {index} with an empty stack"
  | .invalidWeight symbol weight =>
      s!"production for '{symbol}' has weight {Binary32.text weight}; " ++
        "weights must be finite and positive"
  | .emptyProductionSet symbol => s!"no productions registered for '{symbol}'"
  | .nonPositiveTotal symbol total =>
      s!"productions for '{symbol}' have total weight {Binary32.text total}"

end Verdure
