/-
  Verdure.Scalar

  The arithmetic that geometry, noise, selection and searching are written in.
  Every formula of the library that a law of exact arithmetic is stated about is
  written once, over `Scalar`; a plant is grown with `Float32`, and the same formula
  read over an exact field is the one its geometric meaning is stated for.
-/

namespace Verdure

/-- Numbers with the operations, the comparisons and the decimal literals that the
    formulas of the library use.  No laws are asked for: binary32 arithmetic rounds and
    has a NaN that no comparison holds of.  `totalLe` is the order used for sorting,
    which ranks every pair of values, NaN included. -/
class Scalar (α : Type) extends Add α, Sub α, Mul α, Div α, Neg α, LT α, LE α,
    OfScientific α where
  decidableLT : DecidableLT α
  decidableLE : DecidableLE α
  sqrt : α → α
  totalLe : α → α → Bool

attribute [reducible, instance] Scalar.decidableLT Scalar.decidableLE

namespace Scalar

variable {α : Type} [Scalar α]

/-- The distance from zero. -/
@[inline] def abs (a : α) : α := if a < 0.0 then -a else a

/-- The larger of two values.  A NaN loses against a number. -/
@[inline] def max (a b : α) : α :=
  if b ≤ a then a else if a ≤ b then b else if a ≤ a then a else b

/-- The smaller of two values.  A NaN loses against a number. -/
@[inline] def min (a b : α) : α :=
  if a ≤ b then a else if b ≤ a then b else if a ≤ a then a else b

/-- `a` moved into `[lo, hi]`.  A NaN stays a NaN. -/
@[inline] def clamp (lo hi a : α) : α :=
  let a := if a < lo then lo else a
  if hi < a then hi else a

/-- The point a fraction `t` of the way from `a` to `b`. -/
@[inline] def lerp (a b t : α) : α := a + t * (b - a)

end Scalar

end Verdure
