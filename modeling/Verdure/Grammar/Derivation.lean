/-
  Verdure.Grammar.Derivation

  Derivation: passes over a word that replace every symbol with productions at once.
  Each choice draws a sample keyed by the pass, the position and the symbol, so a seed
  fixes the derived word.
-/
import Verdure.Grammar.Basic
import Verdure.Noise.Source

namespace Verdure.Grammar

/-- What a symbol at a position of the word of a pass is replaced by: itself, if it has no
    productions. -/
def replacement (g : Grammar) (noise : Noise.Source) (pass : Nat) (symbol : Char)
    (position : Nat) : Except PlantError Word :=
  match g.set? symbol with
  | none => .ok [symbol]
  | some set =>
      match set.select fun _ => noise.selectionSample pass position symbol with
      | .ok (p, _) => .ok p.replacement
      | .error e => .error (set.explain e)

/-- The word after one pass. -/
def derivePass (g : Grammar) (noise : Noise.Source) (pass : Nat) (word : Word) :
    Except PlantError Word :=
  (word.zipIdx.mapM fun (symbol, position) => g.replacement noise pass symbol position).map
    List.flatten

/-- The word after `passes` passes, the first of them with number `pass`. -/
def deriveFrom (g : Grammar) (noise : Noise.Source) (pass : Nat) :
    Nat → Word → Except PlantError Word
  | 0, word => .ok word
  | passes + 1, word =>
      match g.derivePass noise pass word with
      | .ok next => deriveFrom g noise (pass + 1) passes next
      | .error e => .error e

/-- The word derived from the start word in a number of passes. -/
def derive (g : Grammar) (passes : Nat) (noise : Noise.Source) : Except PlantError Word :=
  g.deriveFrom noise 0 passes g.start

end Verdure.Grammar
