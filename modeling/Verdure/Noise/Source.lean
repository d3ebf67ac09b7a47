/-
  Verdure.Noise.Source

  All the noise one plant draws from, behind a single seed.
-/
import Verdure.Noise.Perlin
import Verdure.Noise.Simplex
import Verdure.Noise.White

namespace Verdure.Noise

/-- The noise functions of one plant. -/
structure Source where
  /-- The seed the functions are made from. -/
  seed : UInt64
  perlin : Perlin
  simplex : Simplex
  white : White
  deriving DecidableEq

namespace Source

/-- The noise functions for a seed.  The two halves of the mixed seed offset the gradient
    lattices; white noise takes the seed itself. -/
def ofSeed (seed : UInt64) : Source :=
  let folded := mix64 seed
  { seed
    perlin := ⟨folded.toUInt32.toInt32⟩
    simplex := ⟨(folded >>> 32).toUInt32.toInt32⟩
    white := ⟨seed⟩ }

/-- One draw in `[0, 1)` for the choice of a replacement, keyed by the pass of a derivation, the
    position of the symbol in the word of the pass, and the symbol. -/
def selectionSample (noise : Source) (pass position : Nat) (symbol : Char) : Float32 :=
  noise.white.sample (.ofNat pass) (.ofNat position) (.ofNat symbol.toNat)

end Source

end Verdure.Noise
