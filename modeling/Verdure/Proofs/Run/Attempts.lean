/-
  Verdure.Proofs.Run.Attempts

  Attempts to place a part, and how a run accounts for them.

  A symbol attempts to place a part if it draws a branch, or if it draws a leaf that the
  depth and the scene admit.  `Yields` lists the ways a symbol can end, with what each of
  them does to the scene and to the world; `step_yields` says that the counts change by the
  same ending.  So each attempt is counted once, under the one way in which it ended, and
  the sinks grow by what is counted as placed.
-/
import Verdure.Proofs.Run.Drawing
import Verdure.Proofs.Run.LeafSinks

namespace Verdure

/-! ## Endings -/

/-- How an attempt to place a part ends. -/
inductive Ending where
  /-- A branch is placed. -/
  | branch
  /-- A leaf is placed. -/
  | leaf
  /-- The part collides with an earlier one. -/
  | collision
  /-- The part is too low. -/
  | ground
  deriving DecidableEq

namespace RunSummary

/-- The counts with one more attempt that ended in a way. -/
def count (summary : RunSummary) : Ending → RunSummary
  | .branch => { summary with branchesPlaced := summary.branchesPlaced + 1 }
  | .leaf => { summary with leavesPlaced := summary.leavesPlaced + 1 }
  | .collision => { summary with collisions := summary.collisions + 1 }
  | .ground => { summary with groundRejections := summary.groundRejections + 1 }

/-- The counts with one more symbol that has an operation, if it has one, and one more
    attempt, if it makes one. -/
def after (summary : RunSummary) (bound : Bool) (ending : Option Ending) : RunSummary :=
  { ending.elim summary summary.count with
    symbolsExecuted := summary.symbolsExecuted + if bound then 1 else 0 }

/-- The number of attempts, in whichever way they ended. -/
def attempts (summary : RunSummary) : Nat :=
  summary.branchesPlaced + summary.leavesPlaced + summary.collisions + summary.groundRejections

theorem attempts_after (summary : RunSummary) (bound : Bool) (ending : Option Ending) :
    (summary.after bound ending).attempts
      = summary.attempts + if ending.isSome then 1 else 0 := by
  rcases ending with _ | ending
  · rfl
  · cases ending <;> simp only [after, attempts, count, Option.elim, Option.isSome, if_true] <;>
      omega

/-- The counts tell how an attempt ended. -/
theorem after_injective (summary : RunSummary) (bound : Bool) :
    Function.Injective (summary.after bound) := by
  intro ending ending' h
  rcases ending with _ | ending <;> rcases ending' with _ | ending' <;>
    simp only [after, Option.elim, RunSummary.mk.injEq] at h
  · rfl
  · cases ending' <;> simp [count] at h
  · cases ending <;> simp [count] at h
  · cases ending <;> cases ending' <;> simp [count] at h ⊢

end RunSummary

/-! ## Attempts -/

/-- The operation attempts to place a part, at a depth and in a scene that has sinks for
    leaves or has none. -/
def Operation.attempts (operation : Operation) (leafSinks : Bool) (depth : Nat) : Bool :=
  match operation with
  | .branch _ => true
  | .leaf style => leafSinks && style.minDepth ≤ depth
  | .rotate _ | .tilt _ | .push | .pop | .tick _ => false

namespace Bindings

/-- The symbol has an operation. -/
def binds (bindings : Bindings) (symbol : Char) : Bool := (bindings.operation? symbol).isSome

/-- The symbol attempts to place a part in a state. -/
def attempts (bindings : Bindings) (symbol : Char) (st : RunState) : Bool :=
  (bindings.operation? symbol).any (·.attempts (!st.scene.leaves.isEmpty) st.depth)

theorem attempts_leaf_iff {bindings : Bindings} {symbol : Char} {style : LeafStyle}
    (h : bindings.operation? symbol = some (.leaf style)) (st : RunState) :
    bindings.attempts symbol st = true ↔
      ¬(st.depth < style.minDepth ∨ st.scene.leaves.isEmpty = true) := by
  simp [attempts, h, Operation.attempts, and_comm]

/-- The ways the symbol at a position can end, with the scene and the world it leaves. -/
inductive Yields (bindings : Bindings) (env : Surroundings) (k : Nat) (symbol : Char)
    (st : RunState) : Option Ending → Scene → Collision.World → Prop
  | quiet (h_quiet : bindings.attempts symbol st = false) :
      Yields bindings env k symbol st none st.scene st.world
  | low (h_attempts : bindings.attempts symbol st = true) :
      Yields bindings env k symbol st (some .ground) st.scene st.world
  | collides (h_attempts : bindings.attempts symbol st = true) :
      Yields bindings env k symbol st (some .collision)
        { st.scene with collisionCount := st.scene.collisionCount + 1 } st.world
  | branch (style : BranchStyle) (h_operation : bindings.operation? symbol = some (.branch style))
      (h_check : st.scene.influences.collisionCheck = false) :
      Yields bindings env k symbol st (some .branch)
        (st.scene.addBranch (style.frameAt st)) st.world
  | storedBranch (style : BranchStyle)
      (h_operation : bindings.operation? symbol = some (.branch style))
      (h_check : st.scene.influences.collisionCheck = true) :
      Yields bindings env k symbol st (some .branch)
        ((st.scene.addLine (style.axisAt st)).addBranch (style.frameAt st))
        { st.world with
          branches := (st.world.branches.add (.segment (style.axisAt st))
            [style.middleAt st, (style.axisAt st).start, (style.axisAt st).stop]).1 }
  | leaf (style : LeafStyle) (h_operation : bindings.operation? symbol = some (.leaf style))
      (h_attempts : bindings.attempts symbol st = true) (h_spacing : style.minSpacing = none) :
      Yields bindings env k symbol st (some .leaf)
        (st.scene.addLeaf (style.variantAt env { st with index := k }) (style.frameAt st)) st.world
  | storedLeaf (style : LeafStyle)
      (h_operation : bindings.operation? symbol = some (.leaf style))
      (h_attempts : bindings.attempts symbol st = true) (spacing : Float32)
      (h_spacing : style.minSpacing = some spacing) :
      Yields bindings env k symbol st (some .leaf)
        (st.scene.addLeaf (style.variantAt env { st with index := k }) (style.frameAt st))
        { st.world with
          leaves := (st.world.leaves.add (.box (style.boxAt st spacing)) [style.placeAt st]).1 }

/-- One symbol ends in one of the ways, and is counted so. -/
theorem step_yields {bindings : Bindings} {env : Surroundings} {k : Nat} {symbol : Char}
    {st st' : RunState} (h : bindings.step env k symbol st = .ok st') :
    ∃ ending, bindings.Yields env k symbol st ending st'.scene st'.world ∧
      st'.summary = st.summary.after (bindings.binds symbol) ending := by
  rcases step_cases h with ⟨h_unbound, rfl⟩ | ⟨operation, next, h_operation, h_applied, rfl⟩
  · refine ⟨none, .quiet ?_, ?_⟩
    · simp [attempts, h_unbound]
    · simp [binds, h_unbound, RunSummary.after]
  · have h_binds : bindings.binds symbol = true := by simp [binds, h_operation]
    rw [h_binds]
    -- A branch is always attempted; a leaf only where the depth allows it and a sink takes it.
    cases h_applied with
    | @branch style _ h_drawn =>
        have h_attempts : bindings.attempts symbol st = true := by
          simp [attempts, h_operation, Operation.attempts]
        cases h_drawn with
        | low => exact ⟨some .ground, .low h_attempts, rfl⟩
        | collides => exact ⟨some .collision, .collides h_attempts, rfl⟩
        | stored _ h_check => exact ⟨some .branch, .storedBranch style h_operation h_check, rfl⟩
        | untested _ h_check => exact ⟨some .branch, .branch style h_operation h_check, rfl⟩
    | @leaf style _ h_drawn =>
        have h_attempts := attempts_leaf_iff h_operation st
        cases h_drawn with
        | skipped h_skip =>
            refine ⟨none, .quiet (Bool.eq_false_iff.mpr fun h => h_attempts.mp h h_skip), rfl⟩
        | low h_fits => exact ⟨some .ground, .low (h_attempts.mpr h_fits), rfl⟩
        | collides h_fits => exact ⟨some .collision, .collides (h_attempts.mpr h_fits), rfl⟩
        | untested h_fits _ h_spacing =>
            exact ⟨some .leaf, .leaf style h_operation (h_attempts.mpr h_fits) h_spacing, rfl⟩
        | stored h_fits _ spacing h_spacing =>
            exact ⟨some .leaf, .storedLeaf style h_operation (h_attempts.mpr h_fits) spacing
              h_spacing, rfl⟩
    | rotate | tilt | push | pop | tick =>
        refine ⟨none, .quiet ?_, rfl⟩
        simp [attempts, h_operation, Operation.attempts]

end Bindings

end Verdure
