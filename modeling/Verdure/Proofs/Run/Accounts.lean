/-
  Verdure.Proofs.Run.Accounts

  The accounts of a run.

  What a run counts is told by its word: how many symbols have an operation, how many draw
  a branch, and how many draw a leaf where the brackets before them are deep enough.  What
  it counts as placed or as colliding is what its scene has gained.
-/
import Verdure.Proofs.Run.Attempts
import Verdure.Proofs.Run.Sinks

namespace Verdure

/-! ## The environment of a run -/

theorem Scene.Alike.trans {scene scene' scene'' : Scene} (h : scene.Alike scene')
    (h' : scene'.Alike scene'') : scene.Alike scene'' :=
  ⟨h.influences.trans h'.influences, h.sunDirection.trans h'.sunDirection,
    h.leaves_size.trans h'.leaves_size⟩

namespace Bindings

section Symbol

variable {bindings : Bindings} {env : Surroundings} {k : Nat} {symbol : Char} {st : RunState}
  {ending : Option Ending} {scene : Scene} {world : Collision.World}

/-- A symbol attempts to place a part exactly if it ends in one of the ways of an attempt. -/
theorem Yields.attempts_eq (h : bindings.Yields env k symbol st ending scene world) :
    bindings.attempts symbol st = ending.isSome := by
  cases h with
  | quiet h_quiet => exact h_quiet
  | low h_attempts => exact h_attempts
  | collides h_attempts => exact h_attempts
  | branch style h_operation => simp [attempts, h_operation, Operation.attempts]
  | storedBranch style h_operation => simp [attempts, h_operation, Operation.attempts]
  | leaf _ _ h_attempts => exact h_attempts
  | storedLeaf _ _ h_attempts => exact h_attempts

/-- A leaf that is attempted finds a sink. -/
theorem leafCount_addLeaf_variantAt {style : LeafStyle}
    (h_operation : bindings.operation? symbol = some (.leaf style))
    (h : bindings.attempts symbol st = true) (env : Surroundings) (k : Nat) (frame : Mat4) :
    (st.scene.addLeaf (style.variantAt env { st with index := k }) frame).leafCount
      = st.scene.leafCount + 1 := by
  have h_fits := (attempts_leaf_iff h_operation st).mp h
  rw [not_or, Array.isEmpty_iff_size_eq_zero] at h_fits
  exact leafCount_addLeaf _
    (style.variantAt_lt env { st with index := k } (Nat.pos_of_ne_zero h_fits.2)) _

/-- No symbol changes the environment, or the number of sinks. -/
theorem Yields.alike (h : bindings.Yields env k symbol st ending scene world) :
    st.scene.Alike scene := by
  cases h with
  | quiet => exact ⟨rfl, rfl, rfl⟩
  | low => exact ⟨rfl, rfl, rfl⟩
  | collides => exact ⟨rfl, rfl, rfl⟩
  | branch => exact ⟨rfl, rfl, rfl⟩
  | storedBranch => exact ⟨rfl, rfl, rfl⟩
  | leaf => exact ⟨rfl, rfl, Array.size_modify.symm⟩
  | storedLeaf => exact ⟨rfl, rfl, Array.size_modify.symm⟩

/-- The scene gains what the ending adds to the counts. -/
theorem Yields.gains (h : bindings.Yields env k symbol st ending scene world)
    (summary : RunSummary) (bound : Bool) :
    scene.branches.size + summary.branchesPlaced
      = st.scene.branches.size + (summary.after bound ending).branchesPlaced ∧
    scene.leafCount + summary.leavesPlaced
      = st.scene.leafCount + (summary.after bound ending).leavesPlaced ∧
    scene.collisionCount + summary.collisions
      = st.scene.collisionCount + (summary.after bound ending).collisions := by
  have h_branch : ∀ (scene : Scene) (frame : Mat4),
      (scene.addBranch frame).branches.size = scene.branches.size + 1 :=
    fun _ _ => Array.size_push _
  cases h with
  | quiet => exact ⟨rfl, rfl, rfl⟩
  | low => exact ⟨rfl, rfl, rfl⟩
  | collides => exact ⟨rfl, rfl, Nat.add_right_comm ..⟩
  | branch => exact ⟨by rw [h_branch]; exact Nat.add_right_comm .., rfl, rfl⟩
  | storedBranch => exact ⟨by rw [h_branch]; exact Nat.add_right_comm .., rfl, rfl⟩
  | leaf style h_operation h_attempts =>
      have h_leaf := leafCount_addLeaf_variantAt h_operation h_attempts env k (style.frameAt st)
      exact ⟨rfl, by rw [h_leaf]; exact Nat.add_right_comm .., rfl⟩
  | storedLeaf style h_operation h_attempts =>
      have h_leaf := leafCount_addLeaf_variantAt h_operation h_attempts env k (style.frameAt st)
      exact ⟨rfl, by rw [h_leaf]; exact Nat.add_right_comm .., rfl⟩

end Symbol

/-! ## Counting symbols of the word -/

/-- The symbol draws a branch. -/
def isBranch (bindings : Bindings) (symbol : Char) : Bool :=
  match bindings.operation? symbol with
  | some (.branch _) => true
  | _ => false

/-- The symbol at a position draws a leaf, and stands at a depth that admits it. -/
def isDeepLeaf (bindings : Bindings) (word : Word) (k : Nat) : Bool :=
  match word[k]?.bind bindings.operation? with
  | some (.leaf style) => style.minDepth ≤ 1 + bindings.height word k
  | _ => false

/-- The number of symbols that draw a leaf and stand at a depth that admits it. -/
def deepLeaves (bindings : Bindings) (word : Word) : Nat :=
  (List.range word.length).countP (bindings.isDeepLeaf word)

theorem countP_range_succ (p : Nat → Bool) (k : Nat) :
    (List.range (k + 1)).countP p = (List.range k).countP p + if p k then 1 else 0 := by
  rw [List.range_succ, List.countP_append, List.countP_singleton]

/-! ## Along a run -/

/-- What a run has counted and gained before a position. -/
structure Accounts (bindings : Bindings) (word : Word) (scene : Scene) (k : Nat)
    (st : RunState) : Prop where
  symbols : st.summary.symbolsExecuted = (word.take k).countP bindings.binds
  branches : st.scene.branches.size = scene.branches.size + st.summary.branchesPlaced
  leaves : st.scene.leafCount = scene.leafCount + st.summary.leavesPlaced
  collisions : st.scene.collisionCount = scene.collisionCount + st.summary.collisions
  attempts : st.summary.attempts = (word.take k).countP bindings.isBranch +
    if scene.leaves.isEmpty then 0 else (List.range k).countP (bindings.isDeepLeaf word)

section Run

variable {bindings : Bindings} {noise : Noise.Source} {word : Word} {scene : Scene}
  {world : Collision.World} {k : Nat} {st st' : RunState} {symbol : Char}

theorem RunsTo.alike (h : bindings.RunsTo noise word scene world k st) :
    scene.Alike st.scene := by
  induction h with
  | start => exact ⟨rfl, rfl, rfl⟩
  | step _ _ h_step ih =>
      obtain ⟨ending, h_yields, -⟩ := step_yields h_step
      exact ih.trans h_yields.alike

/-- A symbol that is reached attempts to place a part if it draws a branch, or if it draws a
    leaf at a depth that admits it and the scene has sinks for leaves. -/
theorem RunsTo.attempts_eq (h : bindings.RunsTo noise word scene world k st)
    (h_symbol : word[k]? = some symbol) :
    (if bindings.attempts symbol st then 1 else 0)
      = (if bindings.isBranch symbol then 1 else 0) +
        if scene.leaves.isEmpty then 0 else if bindings.isDeepLeaf word k then 1 else 0 := by
  have h_depth := h.stack_height
  have h_sinks : st.scene.leaves.isEmpty = scene.leaves.isEmpty := by
    rw [Array.isEmpty, Array.isEmpty, h.alike.leaves_size]
  rw [attempts, isBranch, isDeepLeaf, h_symbol, Option.bind_some, h_sinks]
  rcases bindings.operation? symbol with _ | operation
  · simp
  · cases operation with
    | leaf style =>
        have h_deep : style.minDepth ≤ 1 + bindings.height word k ↔ style.minDepth ≤ st.depth := by
          omega
        cases scene.leaves.isEmpty <;> simp [Operation.attempts, h_deep]
    | branch | rotate | tilt | push | pop | tick => simp [Operation.attempts]

theorem RunsTo.accounts (h : bindings.RunsTo noise word scene world k st) :
    bindings.Accounts word scene k st := by
  induction h with
  | start =>
      refine ⟨rfl, rfl, rfl, rfl, ?_⟩
      cases scene.leaves.isEmpty <;> rfl
  | @step k symbol st st' h_before h_symbol h_step ih =>
      obtain ⟨ending, h_yields, h_summary⟩ := step_yields h_step
      obtain ⟨h_branches, h_leaves, h_collisions⟩ :=
        h_yields.gains st.summary (bindings.binds symbol)
      rw [← h_summary] at h_branches h_leaves h_collisions
      have h_attempts := RunsTo.attempts_eq h_before h_symbol
      have h_ending : bindings.attempts symbol st = ending.isSome := h_yields.attempts_eq
      rw [h_ending] at h_attempts
      obtain ⟨ih_symbols, ih_branches, ih_leaves, ih_collisions, ih_attempts⟩ := ih
      -- Sinks and counts gain the same here, so that the three sums go on without more cases.
      refine ⟨?_, ?_, ?_, ?_, ?_⟩
      · rw [countP_take_succ _ h_symbol, ← ih_symbols, h_summary]
        rfl
      · omega
      · omega
      · omega
      · rw [h_summary, RunSummary.attempts_after, ih_attempts, h_attempts,
          countP_take_succ _ h_symbol, countP_range_succ]
        split <;> omega

/-- An attempt is counted under exactly one ending, and any other symbol under none. -/
theorem summary_step (h : bindings.step ⟨bindings.nesting word, noise⟩ k symbol st = .ok st') :
    (bindings.attempts symbol st = true →
      ∃! ending, st'.summary = st.summary.after true (some ending)) ∧
    (bindings.attempts symbol st = false →
      st'.summary = st.summary.after (bindings.binds symbol) none) := by
  obtain ⟨ending, h_yields, h_summary⟩ := step_yields h
  have h_ending : bindings.attempts symbol st = ending.isSome := h_yields.attempts_eq
  rw [h_ending]
  rcases ending with _ | ending
  · refine ⟨fun h_some => ?_, fun _ => h_summary⟩
    cases h_some
  · have h_binds : bindings.binds symbol = true := by
      rw [attempts, Option.isSome_some, Option.any_eq_true] at h_ending
      obtain ⟨operation, h_operation, -⟩ := h_ending
      rw [binds, h_operation]
      rfl
    rw [h_binds] at h_summary
    refine ⟨fun _ => ⟨ending, h_summary, fun other h_other => ?_⟩, fun h_none => ?_⟩
    · exact Option.some.inj (RunSummary.after_injective _ _ (h_other.symm.trans h_summary))
    · cases h_none

end Run

/-- **Every attempt is accounted for.**  A run that does not fail has executed the symbols of
    its word that have an operation.  Its scene has gained the branches and leaves that are
    counted as placed, and its count of collisions the collisions.  The counts add up to the
    symbols that draw a branch and, if the scene has sinks for leaves, those that draw a leaf
    where the depth admits it; the depth there is the one that the brackets before them give.
    For each symbol that attempts to place a part one ending is counted and no other, and
    none is counted for a symbol that does not. -/
theorem result_run_accounts (bindings : Bindings) (noise : Noise.Source) (word : Word)
    (scene : Scene) (world : Collision.World) (summary : RunSummary)
    (h : (bindings.run noise word scene world).result = .ok summary) :
    summary.symbolsExecuted = word.countP bindings.binds ∧
    (bindings.run noise word scene world).state.scene.branches.size
      = scene.branches.size + summary.branchesPlaced ∧
    (bindings.run noise word scene world).state.scene.leafCount
      = scene.leafCount + summary.leavesPlaced ∧
    (bindings.run noise word scene world).state.scene.collisionCount
      = scene.collisionCount + summary.collisions ∧
    summary.branchesPlaced + summary.leavesPlaced + summary.collisions + summary.groundRejections
      = word.countP bindings.isBranch +
        (if scene.leaves.isEmpty then 0 else bindings.deepLeaves word) ∧
    (∀ k st symbol, bindings.RunsTo noise word scene world k st → word[k]? = some symbol →
      (st.depth : Int) = 1 + bindings.height word k ∧
      ∃ st', bindings.RunsTo noise word scene world (k + 1) st' ∧
        (bindings.attempts symbol st = true →
          ∃! ending, st'.summary = st.summary.after true (some ending)) ∧
        (bindings.attempts symbol st = false →
          st'.summary = st.summary.after (bindings.binds symbol) none)) := by
  rcases run_cases bindings noise word scene world with ⟨last, h_last, h_run⟩ |
      ⟨i, symbol, last, e, -, -, -, h_run⟩
  · rw [h_run] at h
    obtain rfl := Except.ok.inj h
    obtain ⟨h_symbols, h_branches, h_leaves, h_collisions, h_attempts⟩ := h_last.accounts
    rw [List.take_length] at h_symbols h_attempts
    rw [h_run]
    refine ⟨h_symbols, h_branches, h_leaves, h_collisions, h_attempts, ?_⟩
    intro k st symbol h_st h_symbol
    obtain ⟨h_stack, h_depth⟩ := h_st.stack_height
    refine ⟨by omega, ?_⟩
    -- The run gets to its end, so it gets past this symbol.
    obtain ⟨h_k, -⟩ := List.getElem?_eq_some_iff.mp h_symbol
    obtain ⟨st', h_next⟩ := Reaches.before h_last (show k + 1 ≤ word.length from h_k)
    refine ⟨st', h_next, ?_⟩
    cases h_next with
    | step h_before h_symbol' h_step =>
        obtain rfl := Reaches.unique h_st h_before
        rw [h_symbol] at h_symbol'
        cases h_symbol'
        exact summary_step h_step
  · rw [h_run] at h
    cases h

/-- Branches, branches that are kept off the ground, and leaves. -/
def leafyBindings : Bindings :=
  ({} : Bindings) |>.bind 'D' (.branch {}) |>.bind 'B' (.branch { minHeight := 1.0 })
    |>.bind 'l' (.leaf {})

/-- In `DBlX` the first branch is placed, behind the one that the scene holds, and the second
    one is too low.  The leaf is not deep enough to be an attempt. -/
theorem result_run_accounts_leafy :
    (leafyBindings.run (.ofSeed 7) "DBlX".toList Plant.usedScene .empty).result
        = .ok ⟨3, 1, 0, 0, 1, 1, 0⟩ ∧
      "DBlX".toList.countP leafyBindings.isBranch + leafyBindings.deepLeaves "DBlX".toList = 2 ∧
      (leafyBindings.run (.ofSeed 7) "DBlX".toList Plant.usedScene .empty).state.scene.branches.size
        = 2 := by
  have h_result : (leafyBindings.run (.ofSeed 7) "DBlX".toList Plant.usedScene .empty).result
      = .ok ⟨3, 1, 0, 0, 1, 1, 0⟩ := by decide +kernel
  obtain ⟨-, h_branches, -, -, h_attempts, -⟩ := result_run_accounts leafyBindings (.ofSeed 7)
    "DBlX".toList Plant.usedScene .empty _ h_result
  exact ⟨h_result, h_attempts.symm, h_branches⟩

end Bindings

end Verdure
