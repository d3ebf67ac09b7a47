/-
  Verdure.Run.Step

  What each operation does to the state of a run.  Every operation but a restore succeeds
  in every state.

  Memory is taken to suffice.  So the heap of a search has its room: the neighbour counts of
  branches and leaves are ones with `PointTree.HasRoom`, and a search finds
  `Collision.Index.collision?`.
-/
import Verdure.Operation
import Verdure.Run.State

namespace Verdure

namespace BranchStyle

/-- The axis that stands for a branch in collision tests: from the inset to the reach, in
    the direction from the start of the branch to its middle. -/
def axis (style : BranchStyle) (origin middle : Point) (travel : Float32) : Segment Float32 :=
  let direction := (middle - origin).direction
  ⟨origin + direction * style.segmentInset, origin + direction * (style.segmentReach * travel)⟩

/-- Draws a branch.

    A branch that starts too low is dropped, and the turtle walks on.  If branches are
    tested and the branch collides with an earlier one it is dropped too, and the turtle
    stays.  Otherwise it is placed, and stored if branches are tested. -/
def draw (style : BranchStyle) (st : RunState) : RunState :=
  let (travel, thickness) := style.dimensions st.depth
  let advance := Mat4.shift ⟨0.0, travel, 0.0⟩
  let frame := st.turtle.frame * Mat4.scaling ⟨thickness, travel, thickness⟩
  let origin := st.turtle.origin
  if origin.y < style.minHeight then st.countGround.move advance
  else if st.scene.influences.collisionCheck then
    let middle := st.turtle.toWorld ⟨0.0, 0.5 * travel, 0.0⟩
    let axis := style.axis origin middle travel
    match st.world.branches.collision? (.segment axis) middle style.neighbors
        style.clearance with
    | some _ => st.countCollision
    | none => ((st.recordBranch axis middle).placeBranch frame).move advance
  else (st.placeBranch frame).move advance

end BranchStyle

namespace LeafStyle

/-- The variant of the leaf at the running symbol: picked by noise if a deeper leaf follows,
    and the last one if not. -/
def variantAt (style : LeafStyle) (env : Surroundings) (st : RunState) : Nat :=
  let count := st.scene.leaves.size
  if env.nesting.deeperLeafAhead st.index then
    variant (env.noise.perlin.sampleSigned (st.turtle.place * style.variantFrequency)) count
  else count - 1

/-- Draws a leaf, if the depth and the scene admit one.  A leaf that is too low is dropped,
    and so is one that collides with an earlier leaf if leaves are tested. -/
def draw (style : LeafStyle) (env : Surroundings) (st : RunState) : RunState :=
  if st.depth < style.minDepth ∨ st.scene.leaves.isEmpty then st
  else
    let frame := st.turtle.frame * Mat4.rotationZ (Mat4.radians style.angle) *
      Mat4.scaling (.splat style.scale)
    let origin := frame.wAxis.truncate
    if origin.y < style.minHeight then st.countGround
    else
      let variant := style.variantAt env st
      match style.minSpacing with
      | none => st.placeLeaf variant frame
      | some spacing =>
          let box := Box.around origin (.splat (spacing * 0.5))
          match st.world.leaves.collision? (.box box) origin style.neighbors 0.0 with
          | some _ => st.countCollision
          | none => (st.recordLeaf box origin).placeLeaf variant frame

end LeafStyle

/-- The angle of a turn in radians, with the noise at the position of the turtle. -/
def Turn.radians (turn : Turn) (env : Surroundings) (st : RunState) : Float32 :=
  let noise := env.noise.perlin.sample st.turtle.place
  Mat4.radians (turn.angle + turn.jitter * (noise - 0.5) * 2.0)

namespace Pull

/-- The rotation about an axis by an angle in degrees, or no rotation if the axis has no
    direction or the angle is zero. -/
def rotation (axis : Point) (degrees : Float32) : Mat4 :=
  match axis.direction? with
  | some axis => if degrees == 0.0 then .identity else .rotationAbout axis (Mat4.radians degrees)
  | none => .identity

/-- Bends the turtle toward the sun, and then down. -/
def bend (pull : Pull) (st : RunState) : RunState :=
  let direction := (st.turtle.toWorld ⟨0.0, 0.5, 0.0⟩ - st.turtle.origin).direction
  let influences := st.scene.influences
  let sun := rotation (direction.cross st.scene.sunDirection)
    (pull.sunAngle * influences.sunlight)
  let gravity := rotation (direction.cross ⟨0.0, -1.0, 0.0⟩)
    (pull.gravityAngle * st.depth.toFloat32 * influences.gravity)
  st.move (gravity * sun)

end Pull

/-- The state after an operation. -/
def Operation.apply (operation : Operation) (env : Surroundings) (st : RunState) :
    Except PlantError RunState :=
  match operation with
  | .branch style => .ok (style.draw st)
  | .leaf style => .ok (style.draw env st)
  | .rotate turn => .ok (st.move (.rotationY (turn.radians env st)))
  | .tilt turn => .ok (st.move (.rotationZ (turn.radians env st)))
  | .push => .ok st.save
  | .pop => st.restore
  | .tick pull => .ok (pull.bend st)

end Verdure
