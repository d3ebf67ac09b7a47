/-
  Verdure.Proofs.Run.Nesting

  A run and the nesting of its word.

  The nesting is computed ahead of the run, from roles of symbols alone, while the run keeps
  a depth and a stack of turtles that its operations change.  As long as the leaf marker does
  not restore, the two stay in step: the level at a symbol is the depth the run reaches it
  with, the open brackets are as many as the saved turtles, and a restore without a partner
  is a restore with nothing saved.
-/
import Verdure.Proofs.Nesting.Levels
import Verdure.Proofs.Nesting.Partners
import Verdure.Proofs.Run.Brackets

namespace Verdure.Bindings

open Nesting (levelAt scanned)

/-! ## Roles -/

/-- The role of a symbol under the bindings. -/
def role (bindings : Bindings) (symbol : Char) : Role :=
  .of bindings.isPush bindings.isPop bindings.leafMarker symbol

/-- The roles of the symbols of a word. -/
def roles (bindings : Bindings) (word : Word) : List Role := word.map bindings.role

theorem nesting_eq (bindings : Bindings) (word : Word) :
    bindings.nesting word = .ofRoles initialDepth (bindings.roles word) := rfl

section Roles

variable {bindings : Bindings} {symbol : Char}

theorem role_eq_opening_iff : bindings.role symbol = .opening ↔ bindings.isPush symbol = true := by
  unfold role Role.of
  cases bindings.isPush symbol
  · simp only [Bool.false_eq_true, if_false, iff_false]
    split
    · exact Role.noConfusion
    · split <;> exact Role.noConfusion
  · simp

theorem role_eq_closing_iff (h_marker : bindings.isPop bindings.leafMarker = false) :
    bindings.role symbol = .closing ↔ bindings.isPop symbol = true := by
  unfold role Role.of
  cases h_push : bindings.isPush symbol with
  | true => simp [isPop_eq_false_of_isPush h_push]
  | false =>
      by_cases h_leaf : symbol = bindings.leafMarker
      · simp [h_leaf, h_marker]
      · cases bindings.isPop symbol <;> simp [h_leaf]

theorem change_role (h_marker : bindings.isPop bindings.leafMarker = false) (symbol : Char) :
    (bindings.role symbol).change
      = (if bindings.isPush symbol then 1 else 0) - (if bindings.isPop symbol then 1 else 0) := by
  have h_opening := @role_eq_opening_iff bindings symbol
  have h_closing := @role_eq_closing_iff bindings symbol h_marker
  cases h_role : bindings.role symbol <;> rw [h_role] at h_opening h_closing <;>
    simp_all [Role.change]

/-- The level at a position is one more than the height of the word there. -/
theorem levelAt_roles (h_marker : bindings.isPop bindings.leafMarker = false) (word : Word)
    (k : Nat) :
    levelAt initialDepth (bindings.roles word) k = 1 + bindings.height word k := by
  have h_sum : ∀ word : Word, ((bindings.roles word).map Role.change).sum
      = bindings.pushes word - bindings.pops word := by
    intro word
    induction word with
    | nil => rfl
    | cons symbol rest ih =>
        rw [roles, List.map_cons, List.map_cons, List.sum_cons, change_role h_marker, ← roles, ih,
          pushes_cons, pops_cons]
        push_cast
        split <;> split <;> omega
  rw [levelAt, roles, ← List.map_take, ← roles, h_sum]
  rfl

end Roles

/-! ## Brackets without a partner -/

/-- The symbol at `i` restores, and its bracket has no partner in the word. -/
def UnpairedPop (bindings : Bindings) (word : Word) (i : Nat) : Prop :=
  (∃ symbol, word[i]? = some symbol ∧ bindings.isPop symbol = true) ∧
    (bindings.nesting word).partner? i = none

/-- The number of symbols that save and whose brackets have no partner in the word. -/
def unpairedPushes (bindings : Bindings) (word : Word) : Nat :=
  (List.range word.length).countP fun i =>
    word[i]?.any bindings.isPush && ((bindings.nesting word).partner? i).isNone

theorem unpairedPushes_eq (bindings : Bindings) (word : Word) :
    bindings.unpairedPushes word
      = (scanned initialDepth (bindings.roles word)).unmatched.length := by
  rw [← Nesting.countP_unpaired, unpairedPushes, nesting_eq, roles, List.length_map]
  congr 1
  funext i
  congr 1
  rw [List.getElem?_map]
  cases word[i]? with
  | none => rfl
  | some symbol => simp [role_eq_opening_iff]

/-! ## In step -/

section Step

variable {bindings : Bindings} {noise : Noise.Source} {word : Word} {scene : Scene}
  {world : Collision.World} {k : Nat} {st : RunState}

/-- As many brackets are open before a symbol as turtles are saved when it is reached. -/
theorem RunsTo.length_unmatched (h_marker : bindings.isPop bindings.leafMarker = false)
    (h : bindings.RunsTo noise word scene world k st) :
    (scanned initialDepth ((bindings.roles word).take k)).unmatched.length = st.stack.length := by
  induction h with
  | start => rfl
  | @step k symbol st st' _ h_symbol h_step ih =>
      obtain ⟨h_k, rfl⟩ := List.getElem?_eq_some_iff.mp h_symbol
      have h_roles : (bindings.roles word).take (k + 1)
          = (bindings.roles word).take k ++ [bindings.role word[k]] := by
        rw [roles, ← List.map_take, List.take_succ_eq_append_getElem h_k, List.map_append,
          List.map_take]
        rfl
      rw [h_roles, Nesting.scanned_concat]
      -- The scan goes by roles, the run by operations; they agree, as the marker does not restore.
      rcases step_stack h_step with ⟨h_push, -, h_stack, -⟩ | ⟨h_pop, h_stack, -⟩ |
          ⟨h_push, h_pop, h_stack, -⟩
      · rw [role_eq_opening_iff.mpr h_push, Nesting.Scan.unmatched_step_opening, h_stack,
          List.length_cons, List.length_cons, ih]
      · rw [(role_eq_closing_iff h_marker).mpr h_pop, Nesting.Scan.unmatched_step_closing,
          List.length_tail, ih, h_stack, List.length_cons, Nat.add_sub_cancel]
      · have h_opening : bindings.role word[k] ≠ .opening := by
          rw [ne_eq, role_eq_opening_iff, h_push]
          exact Bool.false_ne_true
        have h_closing : bindings.role word[k] ≠ .closing := by
          rw [ne_eq, role_eq_closing_iff h_marker, h_pop]
          exact Bool.false_ne_true
        rw [Nesting.Scan.unmatched_step_of_ne _ h_opening h_closing, ih, h_stack]

/-- A restore that is reached has no partner exactly if nothing is saved. -/
theorem RunsTo.unpairedPop_iff (h_marker : bindings.isPop bindings.leafMarker = false)
    (h : bindings.RunsTo noise word scene world k st) {symbol : Char}
    (h_symbol : word[k]? = some symbol) :
    bindings.UnpairedPop word k ↔ bindings.isPop symbol = true ∧ st.stack = [] := by
  have h_pop : (∃ symbol, word[k]? = some symbol ∧ bindings.isPop symbol = true)
      ↔ bindings.isPop symbol = true := by
    rw [h_symbol]
    simp
  rw [UnpairedPop, h_pop]
  refine and_congr_right fun h_pop => ?_
  have h_role : (bindings.roles word)[k]? = some .closing := by
    rw [roles, List.getElem?_map, h_symbol, Option.map_some,
      (role_eq_closing_iff h_marker).mpr h_pop]
  rw [nesting_eq, Nesting.partner?_of_closing _ h_role, List.head?_eq_none_iff,
    ← List.length_eq_zero_iff, h.length_unmatched h_marker, List.length_eq_zero_iff]

/-- A run gets past no restore without a partner. -/
theorem RunsTo.not_unpairedPop (h_marker : bindings.isPop bindings.leafMarker = false)
    (h : bindings.RunsTo noise word scene world k st) {i : Nat} (h_i : i < k) :
    ¬bindings.UnpairedPop word i := by
  obtain ⟨next, h_next⟩ := Reaches.before h (show i + 1 ≤ k by omega)
  cases h_next with
  | step h_before h_symbol h_step =>
      rw [RunsTo.unpairedPop_iff h_marker h_before h_symbol]
      intro h_pop
      rw [step_eq_error_iff.mpr ⟨h_pop.1, h_pop.2, rfl⟩] at h_step
      cases h_step

theorem RunsTo.level?_nesting (h_marker : bindings.isPop bindings.leafMarker = false)
    (h : bindings.RunsTo noise word scene world k st) (h_k : k < word.length) :
    (bindings.nesting word).level? k = some (st.depth : Int) := by
  obtain ⟨h_stack, h_depth⟩ := h.stack_height
  have h_length : (bindings.roles word).length = word.length := List.length_map _
  have h_size : k < (bindings.nesting word).size := by
    show k < (scanned initialDepth (bindings.roles word)).partners.size
    rwa [(Nesting.tracks_scanned _ _).size_eq, h_length]
  rw [Nesting.level?, if_pos h_size, nesting_eq, Nesting.getElem?_levels _ (by omega),
    levelAt_roles h_marker, Option.some_inj]
  omega

theorem finalLevel_nesting (h_marker : bindings.isPop bindings.leafMarker = false) (word : Word) :
    (bindings.nesting word).finalLevel = 1 + bindings.height word word.length := by
  rw [nesting_eq, Nesting.finalLevel_ofRoles, levelAt_roles h_marker, roles, List.length_map]

theorem isBalanced_nesting (h_marker : bindings.isPop bindings.leafMarker = false) (word : Word) :
    (bindings.nesting word).isBalanced = true ↔
      bindings.height word word.length = 0 ∧ ∀ k ≤ word.length, 0 ≤ bindings.height word k := by
  have h_length : (bindings.roles word).length = word.length := List.length_map _
  have h_trunk : ((initialDepth : Nat) : Int) = 1 := rfl
  rw [nesting_eq, Nesting.isBalanced_ofRoles, h_length]
  simp only [levelAt_roles h_marker]
  rw [h_trunk]
  refine and_congr (by omega) (forall₂_congr fun k _ => by omega)

end Step

/-! ## The outcome -/

section Outcome

variable {bindings : Bindings} {noise : Noise.Source} {word : Word} {scene : Scene}
  {world : Collision.World}

/-- A run stops at the first restore without a partner. -/
theorem result_run_eq_error_iff (h_marker : bindings.isPop bindings.leafMarker = false) (i : Nat) :
    (bindings.run noise word scene world).result = .error (.stackUnderflow i) ↔
      bindings.UnpairedPop word i ∧ ∀ j < i, ¬bindings.UnpairedPop word j := by
  rcases run_cases bindings noise word scene world with ⟨last, h_last, h_run⟩ |
      ⟨j, symbol, last, e, h_last, h_symbol, h_step, h_run⟩
  · -- The run gets past every restore.
    rw [h_run]
    refine ⟨nofun, ?_⟩
    rintro ⟨h_unpaired, -⟩
    obtain ⟨⟨symbol, h_symbol, -⟩, -⟩ := id h_unpaired
    obtain ⟨h_i, -⟩ := List.getElem?_eq_some_iff.mp h_symbol
    exact absurd h_unpaired (h_last.not_unpairedPop h_marker h_i)
  · -- It stops at a restore with nothing saved, past all restores before it.
    obtain ⟨h_pop, h_stack, rfl⟩ := step_eq_error_iff.mp h_step
    have h_unpaired := (h_last.unpairedPop_iff h_marker h_symbol).mpr ⟨h_pop, h_stack⟩
    rw [h_run]
    constructor
    · intro h
      cases h
      exact ⟨h_unpaired, fun i h_i => h_last.not_unpairedPop h_marker h_i⟩
    · rintro ⟨h_i, h_first⟩
      rcases Nat.lt_trichotomy i j with h_lt | rfl | h_gt
      · exact absurd h_i (h_last.not_unpairedPop h_marker h_lt)
      · rfl
      · exact absurd h_unpaired (h_first j h_gt)

theorem finalSummary_in_step (h_marker : bindings.isPop bindings.leafMarker = false)
    {last : RunState} (h : bindings.RunsTo noise word scene world word.length last) :
    (last.finalSummary.finalDepth : Int) = (bindings.nesting word).finalLevel ∧
      last.finalSummary.stackRemaining = bindings.unpairedPushes word := by
  obtain ⟨h_stack, h_depth⟩ := h.stack_height
  have h_unmatched := h.length_unmatched h_marker
  rw [← List.length_map (f := bindings.role), ← roles, List.take_length] at h_unmatched
  refine ⟨?_, h_unmatched.symm.trans (unpairedPushes_eq bindings word).symm⟩
  show (last.depth : Int) = _
  rw [finalLevel_nesting h_marker]
  omega

/-- A word is balanced exactly if a run over it ends with nothing saved. -/
theorem isBalanced_nesting_iff (h_marker : bindings.isPop bindings.leafMarker = false) :
    (bindings.nesting word).isBalanced = true ↔
      ∃ summary, (bindings.run noise word scene world).result = .ok summary ∧
        summary.stackRemaining = 0 := by
  rw [isBalanced_nesting h_marker]
  constructor
  · rintro ⟨h_final, h_nonneg⟩
    have h_none : ∀ i, ¬bindings.FirstDeficit word i := by
      rintro i ⟨h_i, h_deficit, -⟩
      have := h_nonneg (i + 1) h_i
      rw [height] at this
      omega
    obtain ⟨last, h_last, h_run⟩ := runsTo_length_of_not_firstDeficit noise scene world h_none
    have h_stack := h_last.stack_height.1
    refine ⟨last.finalSummary, by rw [h_run]; rfl, ?_⟩
    show last.stack.length = 0
    omega
  · rintro ⟨summary, h_result, h_empty⟩
    obtain ⟨last, h_last, rfl⟩ := runsTo_of_result_run h_result
    have h_stack := h_last.stack_height.1
    have h_none : last.stack.length = 0 := h_empty
    exact ⟨by omega, fun k h_k => h_last.height_nonneg h_k⟩

end Outcome

/-- **The nesting foretells the run.**  Unless the leaf marker restores, the level of every
    symbol is the depth a run reaches it with, which exceeds the position by one at most.  A
    run fails exactly at the first restore without a partner.  If it does not fail it ends at
    the final level, with as many turtles saved as there are saves without a partner; and
    the word is balanced exactly if a run over it ends with nothing saved.  Neighbour counts
    have their room (`PointTree.HasRoom`). -/
theorem run_in_step_with_nesting (bindings : Bindings) (noise : Noise.Source) (word : Word)
    (scene : Scene) (world : Collision.World)
    (h_marker : bindings.isPop bindings.leafMarker = false) :
    (∀ k st, bindings.RunsTo noise word scene world k st → k < word.length →
      (bindings.nesting word).level? k = some (st.depth : Int) ∧ st.depth ≤ 1 + k) ∧
    (∀ i, (bindings.run noise word scene world).result = .error (.stackUnderflow i) ↔
      bindings.UnpairedPop word i ∧ ∀ j < i, ¬bindings.UnpairedPop word j) ∧
    (∀ summary, (bindings.run noise word scene world).result = .ok summary →
      (summary.finalDepth : Int) = (bindings.nesting word).finalLevel ∧
      summary.stackRemaining = bindings.unpairedPushes word) ∧
    ((bindings.nesting word).isBalanced = true ↔
      ∃ summary, (bindings.run noise word scene world).result = .ok summary ∧
        summary.stackRemaining = 0) := by
  refine ⟨?_, result_run_eq_error_iff h_marker, ?_, isBalanced_nesting_iff h_marker⟩
  · intro k st h h_k
    obtain ⟨h_stack, h_depth⟩ := h.stack_height
    have := height_le bindings word k
    exact ⟨h.level?_nesting h_marker h_k, by omega⟩
  · intro summary h_result
    obtain ⟨last, h_last, rfl⟩ := runsTo_of_result_run h_result
    exact finalSummary_in_step h_marker h_last

/-- `[D]][` fails at its second restore, which has no partner. -/
theorem run_in_step_with_nesting_unpaired :
    branchingBindings.isPop branchingBindings.leafMarker = false ∧
      (branchingBindings.run (.ofSeed 7) "[D]][".toList {} .empty).result
        = .error (.stackUnderflow 3) := by
  have h_marker : branchingBindings.isPop branchingBindings.leafMarker = false := by decide
  refine ⟨h_marker, ?_⟩
  refine ((run_in_step_with_nesting branchingBindings (.ofSeed 7) "[D]][".toList {} .empty
    h_marker).2.1 3).mpr ⟨⟨⟨']', by decide, by decide⟩, by decide⟩, ?_⟩
  rintro j h_j ⟨⟨symbol, h_symbol, h_pop⟩, h_none⟩
  -- Of the symbols before it only the one at position 2 restores.
  have h_positions : j = 0 ∨ j = 1 ∨ j = 2 := by omega
  rcases h_positions with rfl | rfl | rfl
  · obtain rfl := Option.some.inj h_symbol
    exact absurd h_pop (by decide)
  · obtain rfl := Option.some.inj h_symbol
    exact absurd h_pop (by decide)
  · exact absurd h_none (by decide)

end Verdure.Bindings
