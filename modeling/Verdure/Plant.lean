/-
  Verdure.Plant

  Plants: a grammar, the operations of its symbols, and the noise of one individual.
-/
import Verdure.Grammar.Derivation
import Verdure.Run.Interpret

namespace Verdure

/-- A plant. -/
structure Plant where
  grammar : Grammar := {}
  bindings : Bindings := {}
  noise : Noise.Source

/-- What a construction gives: the derived word, and the counts of the run over it. -/
structure Construction where
  derived : Word
  summary : RunSummary
  deriving DecidableEq

namespace Plant

/-- The word derived in a number of passes. -/
def derive (plant : Plant) (passes : Nat) : Except PlantError Word :=
  plant.grammar.derive passes plant.noise

/-- Derives a word and runs over it, in an empty world.  The sinks of the scene are added
    to, and its count of collisions starts at zero. -/
def construct (plant : Plant) (passes : Nat) (scene : Scene) :
    Scene × Except PlantError Construction :=
  match plant.derive passes with
  | .error e => (scene, .error e)
  | .ok derived =>
      let outcome :=
        plant.bindings.run plant.noise derived { scene with collisionCount := 0 } .empty
      (outcome.state.scene, outcome.result.map fun summary => { derived, summary })

end Plant

end Verdure
