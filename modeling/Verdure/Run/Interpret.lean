/-
  Verdure.Run.Interpret

  Runs over a word: the operations bound to its symbols, once, from left to right.
-/
import Verdure.Bindings
import Verdure.Run.Step

namespace Verdure

/-- How a run ended: the state it ended in, and the error that stopped it if one did. -/
structure Outcome where
  state : RunState
  failure : Option PlantError := none

/-- The counts of a run that was not stopped. -/
def Outcome.result (outcome : Outcome) : Except PlantError RunSummary :=
  match outcome.failure with
  | none => .ok outcome.state.finalSummary
  | some e => .error e

namespace Bindings

/-- The state after the symbol at a position. -/
def step (bindings : Bindings) (env : Surroundings) (position : Nat) (symbol : Char)
    (st : RunState) : Except PlantError RunState :=
  match bindings.operation? symbol with
  | none => .ok st
  | some operation =>
      match operation.apply env { st with index := position } with
      | .ok st => .ok st.countSymbol
      | .error e => .error e

/-- The outcome of a run over a word whose first symbol has a position.  A failing symbol
    stops the run and changes nothing. -/
def runFrom (bindings : Bindings) (env : Surroundings) : Nat → Word → RunState → Outcome
  | _, [], st => ⟨st, none⟩
  | position, symbol :: rest, st =>
      match bindings.step env position symbol st with
      | .ok st => runFrom bindings env (position + 1) rest st
      | .error e => ⟨st, some e⟩

/-- The structure of a word under the bindings. -/
def nesting (bindings : Bindings) (word : Word) : Nesting :=
  .analyze bindings.isPush bindings.isPop bindings.leafMarker initialDepth word

/-- The outcome of a run over a word, in a scene and a world that may hold the parts of
    earlier runs.  The neighbour counts of its operations are such as a heap can be given room
    for (`PointTree.HasRoom`). -/
def run (bindings : Bindings) (noise : Noise.Source) (word : Word) (scene : Scene)
    (world : Collision.World) : Outcome :=
  bindings.runFrom ⟨bindings.nesting word, noise⟩ 0 word { scene, world }

end Bindings

end Verdure
