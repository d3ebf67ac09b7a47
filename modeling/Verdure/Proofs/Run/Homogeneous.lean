/-
  Verdure.Proofs.Run.Homogeneous

  Homogeneous coordinates along a run.

  A point has the last coordinate 1, a direction has 0, and a map of points to points that
  takes directions to directions has the bottom row `(0, 0, 0, 1)`.  Products of such maps, and
  their images of points and directions, are sums in which zeros meet numbers of any size, so
  rounding leaves their last coordinates exact unless a number that is not finite enters them.
  All that moves the turtle is such a map (`Operation.Applied.steers`), and what is saved or
  restored is a turtle the run had before.
-/
import Verdure.Proofs.Binary32.Zeros
import Verdure.Proofs.Run.Drawing

namespace Verdure

open Binary32 (ZeroIfFinite OneIfFinite)

/-! ## Maps -/

theorem Vec4.zeroIfFinite_direction {v : Vec4} (h : ZeroIfFinite v.w) :
    ZeroIfFinite v.direction.w := by
  unfold direction
  dsimp only
  split
  · exact h.mul _
  · exact Binary32.zeroIfFinite_zero

namespace Mat4

/-- The bottom row of the map is `(0, 0, 0, 1)`, as far as it is finite. -/
structure AffineIfFinite (m : Mat4) : Prop where
  xAxis : ZeroIfFinite m.xAxis.w
  yAxis : ZeroIfFinite m.yAxis.w
  zAxis : ZeroIfFinite m.zAxis.w
  wAxis : OneIfFinite m.wAxis.w

namespace AffineIfFinite

variable {m n : Mat4}

theorem of_row (hx : m.xAxis.w = 0.0) (hy : m.yAxis.w = 0.0) (hz : m.zAxis.w = 0.0)
    (hw : m.wAxis.w = 1.0) : m.AffineIfFinite :=
  ⟨hx ▸ Binary32.zeroIfFinite_zero, hy ▸ Binary32.zeroIfFinite_zero,
    hz ▸ Binary32.zeroIfFinite_zero, hw ▸ Binary32.oneIfFinite_one⟩

/-- What the coordinates other than the last one contribute to the last one of an image. -/
theorem mul_xyz (h : m.AffineIfFinite) (v : Vec4) :
    ZeroIfFinite (m.xAxis.w * v.x + m.yAxis.w * v.y + m.zAxis.w * v.z) :=
  ((h.xAxis.mul _).add (h.yAxis.mul _)).add (h.zAxis.mul _)

theorem mul_direction (h : m.AffineIfFinite) {v : Vec4} (hv : ZeroIfFinite v.w) :
    ZeroIfFinite (m * v).w :=
  (h.mul_xyz v).add (hv.mul_left _)

theorem mul_point (h : m.AffineIfFinite) {v : Vec4} (hv : OneIfFinite v.w) :
    OneIfFinite (m * v).w :=
  (h.mul_xyz v).add_one (h.wAxis.mul hv)

theorem mul (h : m.AffineIfFinite) (h' : n.AffineIfFinite) : (m * n).AffineIfFinite :=
  ⟨h.mul_direction h'.xAxis, h.mul_direction h'.yAxis, h.mul_direction h'.zAxis,
    h.mul_point h'.wAxis⟩

end AffineIfFinite

theorem affineIfFinite_identity : identity.AffineIfFinite := .of_row rfl rfl rfl rfl

theorem affineIfFinite_shift (t : Point) : (shift t).AffineIfFinite := .of_row rfl rfl rfl rfl

theorem affineIfFinite_rotationY (angle : Float32) : (rotationY angle).AffineIfFinite :=
  .of_row rfl rfl rfl rfl

theorem affineIfFinite_rotationZ (angle : Float32) : (rotationZ angle).AffineIfFinite :=
  .of_row rfl rfl rfl rfl

theorem affineIfFinite_rotationAbout (a : Point) (angle : Float32) :
    (rotationAbout a angle).AffineIfFinite :=
  .of_row rfl rfl rfl rfl

end Mat4

theorem Pull.affineIfFinite_rotation (axis : Point) (degrees : Float32) :
    (rotation axis degrees).AffineIfFinite := by
  unfold rotation
  split
  next axis _ =>
    split
    · exact Mat4.affineIfFinite_identity
    · exact Mat4.affineIfFinite_rotationAbout axis _
  next => exact Mat4.affineIfFinite_identity

/-! ## Turtles -/

namespace Turtle

/-- The last coordinates of the turtle are those of a point, a direction and an affine map, as
    far as they are finite. -/
structure HomogeneousIfFinite (turtle : Turtle) : Prop where
  position : OneIfFinite turtle.position.w
  heading : ZeroIfFinite turtle.heading.w
  frame : turtle.frame.AffineIfFinite

theorem homogeneousIfFinite_start : start.HomogeneousIfFinite :=
  ⟨Binary32.oneIfFinite_one, Binary32.zeroIfFinite_zero, Mat4.affineIfFinite_identity⟩

theorem HomogeneousIfFinite.move {turtle : Turtle} (h : turtle.HomogeneousIfFinite) {m : Mat4}
    (hm : m.AffineIfFinite) : (turtle.move m).HomogeneousIfFinite where
  position := hm.mul_point h.position
  heading := Vec4.zeroIfFinite_direction (hm.mul_direction h.heading)
  frame := h.frame.mul hm

end Turtle

/-! ## Runs -/

/-- What an operation does to the live turtle and the saved ones. -/
inductive RunState.Steers (st next : RunState) : Prop
  | stays (h_turtle : next.turtle = st.turtle) (h_stack : next.stack = st.stack)
  | moves (m : Mat4) (h_affine : m.AffineIfFinite) (h_turtle : next.turtle = st.turtle.move m)
      (h_stack : next.stack = st.stack)
  | saves (h_turtle : next.turtle = st.turtle) (h_stack : next.stack = st.turtle :: st.stack)
  | restores (h_stack : st.stack = next.turtle :: next.stack)

theorem BranchStyle.Drawn.steers {style : BranchStyle} {st drawn : RunState}
    (h : style.Drawn st drawn) : st.Steers drawn := by
  have h_advance : (style.advance st).AffineIfFinite := Mat4.affineIfFinite_shift _
  cases h with
  | low => exact .moves _ h_advance rfl rfl
  | collides => exact .stays rfl rfl
  | stored => exact .moves _ h_advance rfl rfl
  | untested => exact .moves _ h_advance rfl rfl

theorem LeafStyle.Drawn.steers {style : LeafStyle} {env : Surroundings} {st drawn : RunState}
    (h : style.Drawn env st drawn) : st.Steers drawn := by
  cases h <;> exact .stays rfl rfl

theorem Operation.Applied.steers {operation : Operation} {env : Surroundings}
    {st next : RunState} (h : operation.Applied env st next) : st.Steers next := by
  cases h with
  | branch h_drawn => exact h_drawn.steers
  | leaf h_drawn => exact h_drawn.steers
  | rotate => exact .moves _ (Mat4.affineIfFinite_rotationY _) rfl rfl
  | tilt => exact .moves _ (Mat4.affineIfFinite_rotationZ _) rfl rfl
  | push => exact .saves rfl rfl
  | pop saved stack h_stack => exact .restores h_stack
  | tick pull =>
      -- The turn toward the sun may have entries that are not finite, and so their product.
      exact .moves _ ((Pull.affineIfFinite_rotation _ _).mul (Pull.affineIfFinite_rotation _ _))
        rfl rfl

/-- The live turtle and the saved ones, latest first. -/
def RunState.turtles (st : RunState) : List Turtle := st.turtle :: st.stack

theorem RunState.Steers.homogeneousIfFinite {st next : RunState} (h : st.Steers next)
    (h_all : ∀ turtle ∈ st.turtles, turtle.HomogeneousIfFinite) :
    ∀ turtle ∈ next.turtles, turtle.HomogeneousIfFinite := by
  unfold turtles at h_all ⊢
  obtain ⟨h_live, h_saved⟩ := List.forall_mem_cons.mp h_all
  cases h with
  | stays h_turtle h_stack => rwa [h_turtle, h_stack]
  | moves m h_affine h_turtle h_stack =>
      rw [h_turtle, h_stack]
      exact List.forall_mem_cons.mpr ⟨h_live.move h_affine, h_saved⟩
  | saves h_turtle h_stack =>
      rw [h_turtle, h_stack]
      exact List.forall_mem_cons.mpr ⟨h_live, h_all⟩
  | restores h_stack =>
      -- The live turtle was a saved one.
      exact h_stack ▸ h_saved

namespace Bindings

variable {bindings : Bindings} {env : Surroundings} {word : Word} {st₀ st : RunState} {k : Nat}

theorem Reaches.homogeneousIfFinite (h : bindings.Reaches env word st₀ k st)
    (h_start : ∀ turtle ∈ st₀.turtles, turtle.HomogeneousIfFinite) :
    ∀ turtle ∈ st.turtles, turtle.HomogeneousIfFinite := by
  induction h with
  | start => exact h_start
  | step _ _ h_step ih =>
      rcases step_cases h_step with ⟨-, rfl⟩ | ⟨operation, next, -, h_applied, rfl⟩
      · exact ih
      · exact h_applied.steers.homogeneousIfFinite ih

end Bindings

/-! ## Finite turtles -/

/-- All coordinates are finite. -/
def Vec4.IsFinite (v : Vec4) : Prop :=
  v.x.isFinite = true ∧ v.y.isFinite = true ∧ v.z.isFinite = true ∧ v.w.isFinite = true

instance (v : Vec4) : Decidable v.IsFinite := inferInstanceAs (Decidable (_ ∧ _ ∧ _ ∧ _))

/-- All components of the turtle are finite. -/
def Turtle.IsFinite (turtle : Turtle) : Prop :=
  turtle.position.IsFinite ∧ turtle.heading.IsFinite ∧ turtle.frame.xAxis.IsFinite ∧
    turtle.frame.yAxis.IsFinite ∧ turtle.frame.zAxis.IsFinite ∧ turtle.frame.wAxis.IsFinite

instance (turtle : Turtle) : Decidable turtle.IsFinite :=
  inferInstanceAs (Decidable (_ ∧ _ ∧ _ ∧ _ ∧ _ ∧ _))

/-- The turtle is in homogeneous coordinates: its position is a point, its heading a direction,
    and its frame an affine map.  Either zero counts. -/
structure Turtle.Homogeneous (turtle : Turtle) : Prop where
  position : turtle.position.w = 1.0
  heading : (turtle.heading.w == 0.0) = true
  xAxis : (turtle.frame.xAxis.w == 0.0) = true
  yAxis : (turtle.frame.yAxis.w == 0.0) = true
  zAxis : (turtle.frame.zAxis.w == 0.0) = true
  wAxis : turtle.frame.wAxis.w = 1.0

theorem Turtle.HomogeneousIfFinite.homogeneous {turtle : Turtle}
    (h : turtle.HomogeneousIfFinite) (h_finite : turtle.IsFinite) : turtle.Homogeneous := by
  obtain ⟨h_position, h_heading, h_x, h_y, h_z, h_w⟩ := h_finite
  exact {
    position := h.position h_position.2.2.2
    heading := (h.heading h_heading.2.2.2).beq
    xAxis := (h.frame.xAxis h_x.2.2.2).beq
    yAxis := (h.frame.yAxis h_y.2.2.2).beq
    zAxis := (h.frame.zAxis h_z.2.2.2).beq
    wAxis := h.frame.wAxis h_w.2.2.2 }

/-- **Turtles stay in homogeneous coordinates.**  At every point of a run the live turtle, if
    all its components are finite, has a position with the last coordinate 1, a heading with
    the last coordinate 0 and a frame with the bottom row `(0, 0, 0, 1)`, without rounding, and
    so has each saved one, whatever its components were before. -/
theorem Bindings.runsTo_homogeneous (bindings : Bindings) (noise : Noise.Source) (word : Word)
    (scene : Scene) (world : Collision.World) (k : Nat) (st : RunState)
    (h : bindings.RunsTo noise word scene world k st) :
    ∀ turtle ∈ st.turtles, turtle.IsFinite → turtle.Homogeneous := by
  have h_start : ∀ turtle ∈ RunState.turtles { scene, world }, turtle.HomogeneousIfFinite :=
    List.forall_mem_cons.mpr ⟨Turtle.homogeneousIfFinite_start, List.forall_mem_nil _⟩
  intro turtle h_turtle h_finite
  -- The invariant of runs holds of turtles of any kind; only here one has to be finite.
  exact (Reaches.homogeneousIfFinite h h_start turtle h_turtle).homogeneous h_finite

/-- In `D[D` the second branch starts from a turtle that is saved, and both turtles are finite
    and in homogeneous coordinates after it. -/
theorem Bindings.runsTo_homogeneous_forking :
    ∃ st, (bracketed.bind 'D' (.branch {})).RunsTo (.ofSeed 7) ['D', '[', 'D']
        { influences.collisionCheck := false } .empty 3 st ∧
      st.turtles.length = 2 ∧ ∀ turtle ∈ st.turtles, turtle.IsFinite ∧ turtle.Homogeneous := by
  have h_branch : (bracketed.bind 'D' (.branch {})).operation? 'D' = some (.branch {}) := by
    decide
  have h_push : (bracketed.bind 'D' (.branch {})).operation? '[' = some .push := by decide
  have h_run : (bracketed.bind 'D' (.branch {})).RunsTo (.ofSeed 7) ['D', '[', 'D']
      { influences.collisionCheck := false } .empty 3 _ :=
    ((Reaches.start.step rfl (step_branch h_branch _ 0 _)).step rfl
      (step_of_applied h_push .push)).step rfl (step_branch h_branch _ 2 _)
  refine ⟨_, h_run, rfl, fun turtle h_turtle => ?_⟩
  have h_finite : turtle.IsFinite := by
    revert turtle
    decide +kernel
  exact ⟨h_finite, runsTo_homogeneous _ _ _ _ _ _ _ h_run turtle h_turtle h_finite⟩

end Verdure
