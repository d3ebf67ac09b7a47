/-
  Verdure.Run.State

  The state of a run over a word: everything an operation can read or change.
-/
import Verdure.Collision.World
import Verdure.Error
import Verdure.Nesting
import Verdure.Noise.Source
import Verdure.Scene
import Verdure.Turtle

namespace Verdure

/-- The depth before the first symbol: the trunk has depth 1. -/
def initialDepth : Nat := 1

/-- What was counted over a run. -/
structure RunSummary where
  /-- Symbols with an operation. -/
  symbolsExecuted : Nat := 0
  /-- Branches placed. -/
  branchesPlaced : Nat := 0
  /-- Leaves placed. -/
  leavesPlaced : Nat := 0
  /-- Placements rejected because they collide. -/
  collisions : Nat := 0
  /-- Placements rejected because they are too low. -/
  groundRejections : Nat := 0
  /-- The depth after the last symbol. -/
  finalDepth : Nat := 0
  /-- Saved turtles that were never restored. -/
  stackRemaining : Nat := 0
  deriving DecidableEq, Repr

/-- What does not change during a run: the structure of the word and the noise. -/
structure Surroundings where
  nesting : Nesting
  noise : Noise.Source

/-- The state of a run. -/
structure RunState where
  turtle : Turtle := .start
  /-- The saved turtles, latest first. -/
  stack : List Turtle := []
  depth : Nat := initialDepth
  /-- The position of the running symbol. -/
  index : Nat := 0
  scene : Scene
  world : Collision.World
  summary : RunSummary := {}

namespace RunState

/-- The state with the turtle moved. -/
def move (st : RunState) (m : Mat4) : RunState := { st with turtle := st.turtle.move m }

/-! ## Saving and restoring -/

/-- The state with a copy of the turtle saved, one level deeper. -/
def save (st : RunState) : RunState :=
  { st with stack := st.turtle :: st.stack, depth := st.depth + 1 }

/-- The state with the turtle saved last restored, one level less deep. -/
def restore (st : RunState) : Except PlantError RunState :=
  match st.stack with
  | [] => .error (.stackUnderflow st.index)
  | saved :: stack => .ok { st with turtle := saved, stack, depth := st.depth - 1 }

/-! ## Counting -/

/-- The state with one more placement rejected for its height. -/
def countGround (st : RunState) : RunState :=
  { st with summary.groundRejections := st.summary.groundRejections + 1 }

/-- The state with one more placement rejected for a collision. -/
def countCollision (st : RunState) : RunState :=
  { st with
    summary.collisions := st.summary.collisions + 1
    scene.collisionCount := st.scene.collisionCount + 1 }

/-- The state with one more operation done. -/
def countSymbol (st : RunState) : RunState :=
  { st with summary.symbolsExecuted := st.summary.symbolsExecuted + 1 }

/-- The counts at the end of a run that ends in this state. -/
def finalSummary (st : RunState) : RunSummary :=
  { st.summary with finalDepth := st.depth, stackRemaining := st.stack.length }

/-! ## Placing -/

/-- The state with one more branch placed. -/
def placeBranch (st : RunState) (frame : Mat4) : RunState :=
  { st with
    scene := st.scene.addBranch frame
    summary.branchesPlaced := st.summary.branchesPlaced + 1 }

/-- The state with the axis of a branch stored for later tests, anchored at its middle and
    at both ends. -/
def recordBranch (st : RunState) (axis : Segment Float32) (middle : Point) : RunState :=
  { st with
    world.branches := (st.world.branches.add (.segment axis) [middle, axis.start, axis.stop]).1
    scene := st.scene.addLine axis }

/-- The state with one more leaf placed. -/
def placeLeaf (st : RunState) (variant : Nat) (frame : Mat4) : RunState :=
  { st with
    scene := st.scene.addLeaf variant frame
    summary.leavesPlaced := st.summary.leavesPlaced + 1 }

/-- The state with the box of a leaf stored for later tests, anchored at its middle. -/
def recordLeaf (st : RunState) (box : Box Float32) (middle : Point) : RunState :=
  { st with world.leaves := (st.world.leaves.add (.box box) [middle]).1 }

end RunState

end Verdure
