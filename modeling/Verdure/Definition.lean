/-
  Verdure.Definition

  The description of a plant as one value.
-/
import Verdure.Plant

namespace Verdure

/-- The description of a plant. -/
structure Definition where
  /-- The seed of the noise. -/
  seed : UInt64 := 0
  /-- The word to start from. -/
  start : Word := []
  /-- Productions of weight 1. -/
  productions : List (Char × Word) := []
  /-- Productions with a weight of their own. -/
  weightedProductions : List (Production Float32) := []
  /-- The operations of symbols.  Of several for one symbol the last one counts. -/
  bindings : List (Char × Operation) := []
  /-- The symbol that marks leaves for the look-ahead. -/
  leafMarker : Char := 'l'
  /-- The number of passes. -/
  iterations : Nat := 0
  deriving DecidableEq

namespace Definition

/-- The grammar of the definition, the productions of weight 1 first, if every weight is
    valid. -/
def grammar (d : Definition) : Except PlantError Grammar :=
  d.weightedProductions.foldlM Grammar.addWeighted <|
    d.productions.foldl (fun g (symbol, replacement) => g.add symbol replacement)
      (.ofStart d.start)

/-- The bindings of the definition. -/
def table (d : Definition) : Bindings :=
  d.bindings.foldl (fun table (symbol, operation) => table.bind symbol operation)
    { leafMarker := d.leafMarker }

/-- The plant that is described, if every weight is valid. -/
def build (d : Definition) : Except PlantError Plant :=
  match d.grammar with
  | .ok grammar => .ok { grammar, bindings := d.table, noise := .ofSeed d.seed }
  | .error e => .error e

/-- Builds the plant and constructs it in a scene. -/
def construct (d : Definition) (scene : Scene) : Scene × Except PlantError Construction :=
  match d.build with
  | .ok plant => plant.construct d.iterations scene
  | .error e => (scene, .error e)

end Definition

end Verdure
