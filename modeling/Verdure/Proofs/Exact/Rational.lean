/-
  Verdure.Proofs.Exact.Rational

  Exact arithmetic on rational numbers: the formulas of the library that take no square root
  can be read, and evaluated, over them.
-/
import Mathlib.Data.Rat.Sqrt
import Mathlib.Tactic.NormNum
import Verdure.Scalar

namespace Verdure

/-- The square root is exact on the squares of rational numbers only. -/
instance : Scalar ℚ where
  decidableLT := inferInstance
  decidableLE := inferInstance
  sqrt := Rat.sqrt
  totalLe a b := a ≤ b

/-- The literal that sums start from. -/
theorem Scalar.zero_rat : (0.0 : ℚ) = 0 := by norm_num

end Verdure
