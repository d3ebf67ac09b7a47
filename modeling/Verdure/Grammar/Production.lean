/-
  Verdure.Grammar.Production

  Productions, the sets of productions of one symbol, and the weighted choice among them.
-/
import Verdure.Error

namespace Verdure

/-- Words over symbols. -/
abbrev Word := List Char

/-- A rule that replaces a symbol by a word, with a weight relative to the other rules of
    the symbol. -/
structure Production (W : Type) where
  source : Char
  replacement : Word
  weight : W
  deriving DecidableEq

/-- The productions of one symbol in the order they were registered, and the sum of their
    weights in that order. -/
structure ProductionSet (W : Type) where
  source : Char
  productions : List (Production W)
  total : W
  deriving DecidableEq

/-- Why no production can be chosen from a set. -/
inductive NoChoice where
  | noProductions
  | nonPositiveTotal
  deriving DecidableEq, Repr

namespace ProductionSet

variable {W : Type} [Scalar W]

/-- The set of a symbol without productions. -/
def empty (source : Char) : ProductionSet W := ⟨source, [], 0.0⟩

/-- The number of productions. -/
def size (set : ProductionSet W) : Nat := set.productions.length

/-- The set with one more production. -/
def add (set : ProductionSet W) (p : Production W) : ProductionSet W :=
  { set with productions := set.productions ++ [p], total := set.total + p.weight }

/-! ## Choice -/

/-- The first production of a list at which the running sum of the weights, started at
    `sum`, exceeds the threshold. -/
def crossing (threshold sum : W) : List (Production W × Nat) → Option (Production W × Nat)
  | [] => none
  | (p, i) :: rest =>
      let sum := sum + p.weight
      if threshold < sum then some (p, i) else crossing threshold sum rest

/-- The number of draws a choice from the set takes: none if there is no choice. -/
def draws (set : ProductionSet W) : Nat :=
  if 2 ≤ set.size ∧ 0.0 < set.total then 1 else 0

/-- A production of the set and its position.

    A single production is chosen without a draw.  Otherwise a draw from `[0, 1)` is scaled
    by the total weight, and the weights are summed from the last production to the first
    until the sum exceeds it.  If rounding keeps the sum from getting there, the first
    production is chosen. -/
def select (set : ProductionSet W) (draw : Unit → W) : Except NoChoice (Production W × Nat) :=
  match set.productions with
  | [] => .error .noProductions
  | [only] => .ok (only, 0)
  | first :: _ :: _ =>
      if 0.0 < set.total then
        let threshold := draw () * set.total
        .ok ((crossing threshold 0.0 set.productions.zipIdx.reverse).getD (first, 0))
      else .error .nonPositiveTotal

/-! ## Sets with binary32 weights -/

/-- A weight that can take part in a choice: finite and positive. -/
def validWeight (weight : Float32) : Bool := weight.isFinite && 0.0 < weight

/-- The set with one more production, if its weight is valid. -/
def push (set : ProductionSet Float32) (p : Production Float32) :
    Except PlantError (ProductionSet Float32) :=
  if validWeight p.weight then .ok (set.add p)
  else .error (.invalidWeight p.source p.weight)

/-- The error that stands for a failed choice from the set. -/
def explain (set : ProductionSet Float32) : NoChoice → PlantError
  | .noProductions => .emptyProductionSet set.source
  | .nonPositiveTotal => .nonPositiveTotal set.source set.total

end ProductionSet

end Verdure
