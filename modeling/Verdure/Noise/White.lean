/-
  Verdure.Noise.White

  White noise: a hash of three 64-bit keys under a 64-bit seed.  Each step of the hash can
  be undone, so two inputs that differ in one key only never meet.
-/

namespace Verdure.Noise

/-- Mixes the bits of a word so that every bit of the result depends on every bit of it. -/
def mix64 (z : UInt64) : UInt64 :=
  let z := (z ^^^ (z >>> 30)) * 0xbf58476d1ce4e5b9
  let z := (z ^^^ (z >>> 27)) * 0x94d049bb133111eb
  z ^^^ (z >>> 31)

/-- The odd number nearest to 2⁶⁴ divided by the golden ratio. -/
def goldenGamma : UInt64 := 0x9e3779b97f4a7c15

/-- The two halves of a word exchanged. -/
def swapHalves (z : UInt64) : UInt64 := (z <<< 32) ||| (z >>> 32)

/-- Hashed white noise over the lattice of triples of 64-bit words. -/
structure White where
  /-- Seed mixed into every hash. -/
  seed : UInt64
  deriving DecidableEq

namespace White

/-- The hash of a lattice point. -/
def hash (noise : White) (a b c : UInt64) : UInt64 :=
  let h := mix64 (noise.seed ^^^ goldenGamma)
  let h := mix64 (h ^^^ a)
  let h := mix64 ((h + b) * goldenGamma)
  mix64 (h ^^^ swapHalves c)

/-- A value in `[0, 1)` for a lattice point: the top 24 bits of its hash over `2 ^ 24`. -/
def sample (noise : White) (a b c : UInt64) : Float32 :=
  (noise.hash a b c >>> 40).toFloat32 / 16777216.0

end White

end Verdure.Noise
