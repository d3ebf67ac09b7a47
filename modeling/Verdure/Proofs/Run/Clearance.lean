/-
  Verdure.Proofs.Run.Clearance

  Placed parts keep their distance.

  A run that starts in an empty collision world and may look at every anchor stores no
  record that collides with an earlier one.  `Budgeted` bounds the anchors of an index by
  the position of the run, so that a query of a whole word's worth of anchors misses none
  of them.
-/
import Verdure.Proofs.Collision.Index
import Verdure.Proofs.Run.Drawing

namespace Verdure

/-! ## Anchors and positions -/

namespace Collision.Index

/-- After `k` symbols at most `k` records are stored, each with `anchors` anchors. -/
structure Budgeted (index : Index) (anchors k : Nat) : Prop where
  anchored : ∃ stored, index.Anchored stored ∧ stored.length = anchors * index.size
  size_le : index.size ≤ k

theorem budgeted_empty (category : Category) (anchors : Nat) :
    (empty category).Budgeted anchors 0 :=
  ⟨⟨[], anchored_empty category, rfl⟩, Nat.le_refl 0⟩

theorem Budgeted.succ {index : Index} {anchors k : Nat} (h : index.Budgeted anchors k) :
    index.Budgeted anchors (k + 1) :=
  ⟨h.anchored, Nat.le_succ_of_le h.size_le⟩

theorem Budgeted.add {index : Index} {anchors k : Nat} (h : index.Budgeted anchors k)
    (record : Bounds Float32) {points : List Point} (h_points : points ≠ [])
    (h_length : points.length = anchors) :
    (index.add record points).1.Budgeted anchors (k + 1) := by
  obtain ⟨stored, h_stored, h_count⟩ := h.anchored
  refine ⟨⟨_, h_stored.add record h_points, ?_⟩, ?_⟩
  · rw [List.length_append, List.length_reverse, List.length_map, h_length, h_count, size_add,
      Nat.mul_succ, Nat.add_comm]
  · rw [size_add]
    exact Nat.succ_le_succ h.size_le

/-- A query of a whole word's worth of anchors that finds no collision has found that no
    record collides. -/
theorem Budgeted.overlaps_eq_false {index : Index} {anchors k n : Nat}
    (h : index.Budgeted anchors k) (h_k : k ≤ n) {candidate : Bounds Float32} {query : Point}
    {neighbors : Nat} {epsilon : Float32} (h_neighbors : anchors * n ≤ neighbors)
    (h_none : index.collision? candidate query neighbors epsilon = none) {i : Nat}
    {record : Bounds Float32} (h_record : index.records[i]? = some record) :
    candidate.overlaps record epsilon = false := by
  obtain ⟨stored, h_stored, h_count⟩ := h.anchored
  have h_looks : stored.length ≤ neighbors := by
    calc stored.length = anchors * index.size := h_count
      _ ≤ anchors * n := Nat.mul_le_mul_left anchors (h.size_le.trans h_k)
      _ ≤ neighbors := h_neighbors
  exact (h_stored.collision?_eq_none_iff h_looks).mp h_none i record h_record

end Collision.Index

/-! ## Along a run -/

namespace Bindings

/-- The symbol at `m` draws a branch in the style, and stores its bounds as record `j`. -/
def StoresBranch (bindings : Bindings) (noise : Noise.Source) (word : Word) (scene : Scene)
    (world : Collision.World) (m : Nat) (style : BranchStyle) (j : Nat) : Prop :=
  ∃ symbol st st', word[m]? = some symbol ∧ bindings.operation? symbol = some (.branch style) ∧
    bindings.RunsTo noise word scene world m st ∧
    bindings.RunsTo noise word scene world (m + 1) st' ∧
    st.world.branches.size = j ∧ st'.world.branches.size = j + 1

/-- Every branch of the word looks at as many anchors as the whole word can store. -/
def SeesAllBranches (bindings : Bindings) (word : Word) : Prop :=
  ∀ symbol ∈ word, ∀ style, bindings.operation? symbol = some (.branch style) →
    3 * word.length ≤ style.neighbors

/-- Every leaf of the word that is tested looks at as many anchors as the whole word can
    store. -/
def SeesAllLeaves (bindings : Bindings) (word : Word) : Prop :=
  ∀ symbol ∈ word, ∀ style, bindings.operation? symbol = some (.leaf style) →
    style.minSpacing.isSome = true → word.length ≤ style.neighbors

section Runs

variable {bindings : Bindings} {noise : Noise.Source} {word : Word} {scene : Scene}
  {k : Nat} {st : RunState}

/-- A branch stores its axis with three anchors, and a leaf its box with one. -/
theorem RunsTo.budgeted (h : bindings.RunsTo noise word scene .empty k st) :
    st.world.branches.Budgeted 3 k ∧ st.world.leaves.Budgeted 1 k := by
  induction h with
  | start =>
      exact ⟨Collision.Index.budgeted_empty .branch 3, Collision.Index.budgeted_empty .leaf 1⟩
  | step _ _ h_step ih =>
      obtain ⟨h_branches, h_leaves⟩ := ih
      have h_world := worldStep h_step
      generalize RunState.world _ = world at h_world ⊢
      cases h_world with
      | same => exact ⟨h_branches.succ, h_leaves.succ⟩
      | branch style _ _ =>
          exact ⟨h_branches.add _ (List.cons_ne_nil _ _) rfl, h_leaves.succ⟩
      | leaf style _ spacing _ _ =>
          exact ⟨h_branches.succ, h_leaves.add _ (List.cons_ne_nil _ _) rfl⟩

/-- Every stored branch was stored by a symbol of the word, and clear of all branches before
    it. -/
theorem RunsTo.branches_clear (h_all : bindings.SeesAllBranches word)
    (h : bindings.RunsTo noise word scene .empty k st) {j : Nat} {b : Bounds Float32}
    (h_b : st.world.branches.records[j]? = some b) :
    ∃ m < k, ∃ style, bindings.StoresBranch noise word scene .empty m style j ∧
      ∀ i < j, ∀ a, st.world.branches.records[i]? = some a →
        b.overlaps a style.clearance = false := by
  induction h generalizing j b with
  | start => simp [Collision.World.empty, Collision.Index.empty] at h_b
  | @step k symbol st st' h_before h_symbol h_step ih =>
      have h_world := worldStep h_step
      generalize h_eq : st'.world = world at h_world h_b ⊢
      cases h_world with
      | same =>
          obtain ⟨m, h_m, style, h_stores, h_clear⟩ := ih h_b
          exact ⟨m, Nat.lt_succ_of_lt h_m, style, h_stores, h_clear⟩
      | leaf =>
          obtain ⟨m, h_m, style, h_stores, h_clear⟩ := ih h_b
          exact ⟨m, Nat.lt_succ_of_lt h_m, style, h_stores, h_clear⟩
      | branch style h_operation h_free =>
          rw [Collision.Index.getElem?_records_add] at h_b
          split at h_b
          next h_last =>
            -- The new record, which was tested against every earlier one.
            obtain rfl := Option.some.inj h_b
            obtain ⟨h_k, h_get⟩ := List.getElem?_eq_some_iff.mp h_symbol
            have h_neighbors := h_all symbol (h_get ▸ List.getElem_mem h_k) style h_operation
            have h_after : st'.world.branches.size = j + 1 := by
              rw [h_eq, Collision.Index.size_add, h_last]
            refine ⟨k, Nat.lt_succ_self k, style, ⟨symbol, st, st', h_symbol, h_operation,
              h_before, h_before.step h_symbol h_step, h_last.symm, h_after⟩, ?_⟩
            intro i h_i a h_a
            rw [Collision.Index.getElem?_records_add, if_neg (by omega)] at h_a
            exact (RunsTo.budgeted h_before).1.overlaps_eq_false (Nat.le_of_lt h_k) h_neighbors
              h_free h_a
          next h_earlier =>
            obtain ⟨h_j, -⟩ := Array.getElem?_eq_some_iff.mp h_b
            obtain ⟨m, h_m, style', h_stores, h_clear⟩ := ih h_b
            refine ⟨m, Nat.lt_succ_of_lt h_m, style', h_stores, ?_⟩
            intro i h_i a h_a
            have h_size : i ≠ st.world.branches.size := by
              unfold Collision.Index.size
              omega
            rw [Collision.Index.getElem?_records_add, if_neg h_size] at h_a
            exact h_clear i h_i a h_a

/-- No stored leaf collides with an earlier one. -/
theorem RunsTo.leaves_clear (h_all : bindings.SeesAllLeaves word)
    (h : bindings.RunsTo noise word scene .empty k st) {i j : Nat} (h_i : i < j)
    {a b : Bounds Float32} (h_a : st.world.leaves.records[i]? = some a)
    (h_b : st.world.leaves.records[j]? = some b) : b.overlaps a 0.0 = false := by
  induction h generalizing i j a b with
  | start => simp [Collision.World.empty, Collision.Index.empty] at h_b
  | @step k symbol st st' h_before h_symbol h_step ih =>
      have h_world := worldStep h_step
      generalize st'.world = world at h_world h_a h_b
      cases h_world with
      | same => exact ih h_i h_a h_b
      | branch => exact ih h_i h_a h_b
      | leaf style h_operation spacing h_spacing h_free =>
          rw [Collision.Index.getElem?_records_add] at h_a h_b
          split at h_b
          next h_last =>
            -- The new leaf was tested against all anchors, since the budget covers them.
            obtain rfl := Option.some.inj h_b
            obtain ⟨h_k, h_get⟩ := List.getElem?_eq_some_iff.mp h_symbol
            have h_neighbors := h_all symbol (h_get ▸ List.getElem_mem h_k) style h_operation
              (by rw [h_spacing]; rfl)
            rw [if_neg (by omega)] at h_a
            exact (RunsTo.budgeted h_before).2.overlaps_eq_false (Nat.le_of_lt h_k)
              (by rwa [Nat.one_mul]) h_free h_a
          next h_earlier =>
            obtain ⟨h_j, -⟩ := Array.getElem?_eq_some_iff.mp h_b
            -- Both leaves were there before.
            have h_size : i ≠ st.world.leaves.size := by
              unfold Collision.Index.size
              omega
            rw [if_neg h_size] at h_a
            exact ih h_i h_a h_b

end Runs

/-- **Placed parts keep their distance.**  In a run that starts in an empty world and whose
    operations look at as many anchors as the word can store, every stored branch was stored
    by a symbol of the word whose clearance it keeps from every branch stored before it, and
    no stored leaf collides with one stored before it, at every point of the run and for
    all coordinates.  A scene in which branches are not tested stores none of them, so the
    run need not test them.  Each index has at most one record for every symbol passed, and
    the depth is at most one more than their number. -/
theorem runsTo_clear (bindings : Bindings) (noise : Noise.Source) (word : Word) (scene : Scene)
    (k : Nat) (st : RunState) (h_branches : bindings.SeesAllBranches word)
    (h_leaves : bindings.SeesAllLeaves word)
    (h : bindings.RunsTo noise word scene .empty k st) :
    (∀ (j : Nat) (b : Bounds Float32), st.world.branches.records[j]? = some b →
      ∃ m < k, ∃ style, bindings.StoresBranch noise word scene .empty m style j ∧
        ∀ i < j, ∀ a, st.world.branches.records[i]? = some a →
          b.overlaps a style.clearance = false) ∧
    (∀ (i j : Nat) (a b : Bounds Float32), i < j → st.world.leaves.records[i]? = some a →
      st.world.leaves.records[j]? = some b → b.overlaps a 0.0 = false) ∧
    (st.world.branches.size ≤ k ∧ st.world.leaves.size ≤ k ∧ st.depth ≤ 1 + k) :=
  ⟨fun _ _ h_b => h.branches_clear h_branches h_b,
    fun _ _ _ _ h_i h_a h_b => h.leaves_clear h_leaves h_i h_a h_b,
    (RunsTo.budgeted h).1.size_le, (RunsTo.budgeted h).2.size_le, h.depth_le⟩

/-- Branches, and leaves that are kept apart. -/
def spacedBindings : Bindings :=
  ({} : Bindings) |>.bind 'D' (.branch {}) |>.bind 'L' (.leaf { minSpacing := some 0.5 })

/-- The state after one branch. -/
def firstBranch : RunState :=
  (BranchStyle.draw {} { scene := {}, world := .empty }).countSymbol

/-- `DD` stores two branches, the second after a test against the first. -/
theorem runsTo_clear_two_branches :
    spacedBindings.SeesAllBranches "DD".toList ∧ spacedBindings.SeesAllLeaves "DD".toList ∧
      ∃ st, spacedBindings.RunsTo (.ofSeed 7) "DD".toList {} .empty 2 st ∧
        ∃ a b, st.world.branches.records[0]? = some a ∧ st.world.branches.records[1]? = some b ∧
          b.overlaps a 0.015 = false := by
  have h_operation : spacedBindings.operation? 'D' = some (.branch {}) := by decide
  have h_word : ∀ symbol ∈ "DD".toList, symbol = 'D' := by simp
  have h_branches : spacedBindings.SeesAllBranches "DD".toList := by
    intro symbol h_symbol style h_style
    rw [h_word symbol h_symbol, h_operation] at h_style
    cases h_style
    decide
  have h_leaves : spacedBindings.SeesAllLeaves "DD".toList := by
    intro symbol h_symbol style h_style
    rw [h_word symbol h_symbol, h_operation] at h_style
    cases h_style
  have h_first : spacedBindings.RunsTo (.ofSeed 7) "DD".toList {} .empty 1 firstBranch :=
    .step .start rfl (step_branch h_operation _ _ _)
  have h_second := h_first.step rfl (step_branch h_operation _ 1 firstBranch)
  have h_size : firstBranch.world.branches.size = 1 := by decide +kernel
  -- The test of the second branch, against the one record there is.
  have h_free : BranchStyle.collisionAt {} { firstBranch with index := 1 } = none := by
    obtain ⟨stored, h_stored, h_count⟩ := (RunsTo.budgeted h_first).1.anchored
    have h_looks : stored.length ≤ 20 := by
      rw [h_count, h_size]
      decide
    have h_apart : ∀ record ∈ firstBranch.world.branches.records,
        (Bounds.segment (BranchStyle.axisAt {} { firstBranch with index := 1 })).overlaps record
          0.015 = false := by decide +kernel
    exact (h_stored.collision?_eq_none_iff h_looks).mpr
      fun _ record h_record => h_apart record (Array.mem_of_getElem? h_record)
  have h_records := BranchStyle.getElem?_records_draw (by decide +kernel) (by decide +kernel) h_free
  have h_record : firstBranch.world.branches.records[0]? = some _ :=
    Array.getElem?_eq_getElem (Nat.lt_of_lt_of_eq Nat.zero_lt_one h_size.symm)
  have h_old := (h_records 0).trans ((if_neg (h_size ▸ Nat.zero_ne_one)).trans h_record)
  have h_new := (h_records 1).trans (if_pos h_size.symm)
  obtain ⟨m, -, style, ⟨symbol, _, _, h_symbol, h_style, -⟩, h_clear⟩ :=
    (runsTo_clear spacedBindings (.ofSeed 7) "DD".toList {} 2 _ h_branches h_leaves h_second).1
      1 _ h_new
  rw [h_word symbol (List.mem_of_getElem? h_symbol), h_operation] at h_style
  cases h_style
  exact ⟨h_branches, h_leaves, _, h_second, _, _, h_old, h_new, h_clear 0 (by decide) _ h_old⟩

end Bindings

end Verdure
