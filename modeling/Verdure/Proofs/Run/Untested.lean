/-
  Verdure.Proofs.Run.Untested

  Runs in which branches are not tested.

  A test of a branch has two outcomes.  If the branch collides it is dropped, and the turtle
  stays.  If it does not it is stored, in the lines and in the branch index, and apart from
  those everything is as if there had been no test.  Only tests read the branch index, and
  nothing reads the lines, so as long as no branch collides a run with tests and one without
  stay in step (`runFrom_untested`).  Leaves keep their distance in both.
-/
import Verdure.Proofs.Run.Accounts

namespace Verdure

/-- The scene with branches tested or not. -/
def Scene.testing (scene : Scene) (check : Bool) : Scene :=
  { scene with influences.collisionCheck := check }

/-- The state without tests of branches: the lines and the branch index, which tests fill, are
    given. -/
def RunState.untested (st : RunState) (lines : Option (Array (Segment Float32)))
    (index : Collision.Index) : RunState :=
  { st with
    scene := { st.scene.testing false with lines }
    world := { st.world with branches := index } }

/-! ## Operations -/

section Operations

variable {env : Surroundings} {st next : RunState} {lines : Option (Array (Segment Float32))}
  {index : Collision.Index}

/-- A branch that does not collide is drawn the same without a test. -/
theorem BranchStyle.Drawn.untested_of_not_collides {style : BranchStyle} (h : style.Drawn st next)
    (h_free : ¬st.summary.collisions < next.summary.collisions) :
    style.Drawn (st.untested lines index) (next.untested lines index) := by
  cases h with
  | low h_low => exact .low h_low
  | collides => exact absurd (Nat.lt_succ_self _) h_free
  | stored h_high => exact .untested h_high rfl
  | untested h_high => exact .untested h_high rfl

/-- A leaf is tested against the same leaves. -/
theorem LeafStyle.Drawn.untested_of_drawn {style : LeafStyle} (h : style.Drawn env st next) :
    style.Drawn env (st.untested lines index) (next.untested lines index) := by
  cases h with
  | skipped h_skip => exact .skipped h_skip
  | low h_fits h_low => exact .low h_fits h_low
  | untested h_fits h_high h_spacing => exact .untested h_fits h_high h_spacing
  | collides h_fits h_high spacing h_spacing id h_collision =>
      exact .collides h_fits h_high spacing h_spacing id h_collision
  | stored h_fits h_high spacing h_spacing h_free =>
      exact @Drawn.stored style env (st.untested lines index) h_fits h_high spacing h_spacing h_free

theorem Operation.Applied.untested {operation : Operation} (h : operation.Applied env st next)
    (h_free : ∀ style, operation = .branch style →
      ¬st.summary.collisions < next.summary.collisions) :
    operation.Applied env (st.untested lines index) (next.untested lines index) := by
  cases h with
  | branch h_drawn => exact .branch (h_drawn.untested_of_not_collides (h_free _ rfl))
  | leaf h_drawn => exact .leaf h_drawn.untested_of_drawn
  | rotate turn => exact .rotate turn
  | tilt turn => exact .tilt turn
  | push => exact .push
  | pop saved stack h_stack => exact .pop saved stack h_stack
  | tick pull => exact .tick pull

end Operations

/-! ## Runs -/

namespace Bindings

/-- The number of symbols at which a run over a word, whose first symbol has a position, drops
    a branch because it collides. -/
def branchCollisionsFrom (bindings : Bindings) (env : Surroundings) :
    Nat → Word → RunState → Nat
  | _, [], _ => 0
  | position, symbol :: rest, st =>
      match bindings.step env position symbol st with
      | .ok next =>
          branchCollisionsFrom bindings env (position + 1) rest next +
            if bindings.isBranch symbol ∧ st.summary.collisions < next.summary.collisions then 1
            else 0
      | .error _ => 0

/-- The number of branches that a run drops because they collide. -/
def branchCollisions (bindings : Bindings) (noise : Noise.Source) (word : Word) (scene : Scene)
    (world : Collision.World) : Nat :=
  bindings.branchCollisionsFrom ⟨bindings.nesting word, noise⟩ 0 word { scene, world }

section Run

variable {bindings : Bindings} {env : Surroundings} {k : Nat} {symbol : Char}
  {st next : RunState} {lines : Option (Array (Segment Float32))} {index : Collision.Index}

theorem isBranch_of_operation? {style : BranchStyle}
    (h : bindings.operation? symbol = some (.branch style)) : bindings.isBranch symbol = true := by
  rw [isBranch, h]

/-- A symbol that drops no branch for a collision does the same without tests. -/
theorem step_untested (h_step : bindings.step env k symbol st = .ok next)
    (h_free : ¬(bindings.isBranch symbol ∧ st.summary.collisions < next.summary.collisions)) :
    bindings.step env k symbol (st.untested lines index) = .ok (next.untested lines index) := by
  rcases step_cases h_step with ⟨h_unbound, rfl⟩ | ⟨operation, drawn, h_operation, h_applied, rfl⟩
  · exact step_of_unbound h_unbound env k _
  · have h_applied' : operation.Applied env { st.untested lines index with index := k }
        (drawn.untested lines index) := by
      refine h_applied.untested fun style h_style h_lt => h_free ⟨?_, h_lt⟩
      exact isBranch_of_operation? (h_operation.trans (congrArg some h_style))
    exact step_of_applied h_operation h_applied'

/-- A run that drops no branch for a collision is, without tests, the same run. -/
theorem runFrom_untested {word : Word} (h : bindings.branchCollisionsFrom env k word st = 0)
    (lines : Option (Array (Segment Float32))) (index : Collision.Index) :
    bindings.runFrom env k word (st.untested lines index)
      = ⟨(bindings.runFrom env k word st).state.untested lines index,
        (bindings.runFrom env k word st).failure⟩ := by
  induction word generalizing k st with
  | nil => rfl
  | cons symbol rest ih =>
      rw [branchCollisionsFrom] at h
      rw [runFrom, runFrom]
      cases h_step : bindings.step env k symbol st with
      | ok next =>
          rw [h_step] at h
          obtain ⟨h_rest, h_symbol⟩ := Nat.add_eq_zero_iff.mp h
          rw [step_untested h_step (by simpa using h_symbol)]
          exact ih h_rest
      | error e =>
          obtain ⟨h_pop, h_stack, rfl⟩ := step_eq_error_iff.mp h_step
          have h_step' : bindings.step env k symbol (st.untested lines index)
              = .error (.stackUnderflow k) := step_of_isPop_nil h_pop h_stack
          rw [h_step']

end Run

/-- **Tests only ever drop branches.**  If a run in which branches are tested drops none of
    them for a collision, the run in which they are not tested succeeds with the same counts
    or fails with the same error.  It leaves the same branches, and the same leaves in every
    sink, those that were dropped for a collision with an earlier leaf left out of both.
    Neighbour counts have their room (`PointTree.HasRoom`). -/
theorem run_testing (bindings : Bindings) (noise : Noise.Source) (word : Word) (scene : Scene)
    (world : Collision.World)
    (h : bindings.branchCollisions noise word (scene.testing true) world = 0) :
    (bindings.run noise word (scene.testing false) world).result
      = (bindings.run noise word (scene.testing true) world).result ∧
    (bindings.run noise word (scene.testing false) world).state.scene.branches
      = (bindings.run noise word (scene.testing true) world).state.scene.branches ∧
    (bindings.run noise word (scene.testing false) world).state.scene.leaves
      = (bindings.run noise word (scene.testing true) world).state.scene.leaves := by
  have h_run := runFrom_untested h scene.lines world.branches
  have h_start : RunState.untested { scene := scene.testing true, world } scene.lines
      world.branches = { scene := scene.testing false, world } := rfl
  rw [h_start] at h_run
  rw [run, run, h_run]
  refine ⟨?_, rfl, rfl⟩
  rw [Outcome.result, Outcome.result]
  cases (bindings.runFrom ⟨bindings.nesting word, noise⟩ 0 word
    { scene := scene.testing true, world }).failure <;> rfl

/-- In `DBlX` the test of the first branch lets it pass, and the second branch is too low to
    be tested. -/
theorem run_testing_leafy :
    leafyBindings.branchCollisions (.ofSeed 7) "DBlX".toList
        (Plant.usedScene.testing true) .empty = 0 ∧
      (leafyBindings.run (.ofSeed 7) "DBlX".toList
        (Plant.usedScene.testing false) .empty).result = .ok ⟨3, 1, 0, 0, 1, 1, 0⟩ ∧
      (leafyBindings.run (.ofSeed 7) "DBlX".toList
        (Plant.usedScene.testing false) .empty).state.scene.branches.size = 2 := by
  have h_free : leafyBindings.branchCollisions (.ofSeed 7) "DBlX".toList
      (Plant.usedScene.testing true) .empty = 0 := by decide +kernel
  have h_result : (leafyBindings.run (.ofSeed 7) "DBlX".toList
      (Plant.usedScene.testing true) .empty).result = .ok ⟨3, 1, 0, 0, 1, 1, 0⟩ := by
    decide +kernel
  have h_size : (leafyBindings.run (.ofSeed 7) "DBlX".toList
      (Plant.usedScene.testing true) .empty).state.scene.branches.size = 2 := by
    decide +kernel
  obtain ⟨h_same, h_branches, -⟩ := run_testing leafyBindings (.ofSeed 7) "DBlX".toList
    Plant.usedScene .empty h_free
  exact ⟨h_free, h_same.trans h_result, h_branches ▸ h_size⟩

end Bindings

end Verdure
