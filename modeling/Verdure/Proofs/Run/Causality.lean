/-
  Verdure.Proofs.Run.Causality

  What a run does up to a position, and the text from there on.

  The look-ahead of a word depends on all of it, and so may differ at every position between
  two words that go on differently.  All it decides is which sink a leaf goes to, and no operation
  reads what the leaf sinks hold.  So up to the position where the words part, their runs have
  the same states, with the same leaves dealt to other sinks (`RunsTo.samePast`).
-/
import Verdure.Proofs.Run.Elsewhere

namespace Verdure

/-! ## States with the same past -/

/-- The states of two runs that began in a scene and did the same: they differ in nothing but
    how the leaves placed since then are dealt to the sinks. -/
structure RunState.SamePast (scene : Scene) (st st' : RunState) : Prop where
  eq_but_leaves : st' = { st with scene.leaves := st'.scene.leaves }
  dealt : ∃ frames, Dealt scene.leaves frames st.scene.leaves ∧
    Dealt scene.leaves frames st'.scene.leaves

namespace RunState.SamePast

variable {scene : Scene} {st st' : RunState} (h : st.SamePast scene st')
include h

theorem symm : st'.SamePast scene st := by
  obtain ⟨frames, h_dealt, h_dealt'⟩ := h.dealt
  refine ⟨?_, frames, h_dealt', h_dealt⟩
  rw [h.eq_but_leaves]

theorem alongside : st.Alongside st' := by
  obtain ⟨frames, h_dealt, h_dealt'⟩ := h.dealt
  refine ⟨?_, h_dealt'.size_eq.trans h_dealt.size_eq.symm⟩
  rw [h.eq_but_leaves]
  rfl

theorem index_eq : st'.index = st.index := by
  rw [h.eq_but_leaves]

theorem leavesOf_perm : (leavesOf st.scene.leaves).Perm (leavesOf st'.scene.leaves) := by
  obtain ⟨frames, h_dealt, h_dealt'⟩ := h.dealt
  exact h_dealt.leavesOf_perm.trans h_dealt'.leavesOf_perm.symm

end RunState.SamePast

namespace Bindings

variable {bindings : Bindings} {noise : Noise.Source} {word : Word} {scene : Scene}
  {world : Collision.World} {k : Nat} {st : RunState}

/-- Two runs over words that agree up to a position have the same past there. -/
theorem RunsTo.samePast (h : bindings.RunsTo noise word scene world k st) (word' : Word)
    (h_agree : ∀ i < k, word'[i]? = word[i]?) :
    ∃ st', bindings.RunsTo noise word' scene world k st' ∧ st.SamePast scene st' := by
  induction h with
  | start => exact ⟨_, .start, rfl, [], .nil, .nil⟩
  | @step k symbol st next _ h_symbol h_step ih =>
      obtain ⟨st', h_st', h_past⟩ := ih fun i h_i => h_agree i (by omega)
      obtain ⟨next', h_step', h_next, h_index, h_leaf⟩ :=
        step_elsewhere h_past.alongside h_step ⟨bindings.nesting word', noise⟩ rfl k
      obtain ⟨frames, h_dealt, h_dealt'⟩ := h_past.dealt
      have h_symbol' : word'[k]? = some symbol := (h_agree k (by omega)).trans h_symbol
      exact ⟨next', h_st'.step h_symbol' h_step', h_next.eq_of_index (h_index h_past.index_eq rfl),
        h_leaf.dealt h_past.alongside.size_leaves h_dealt h_dealt'⟩

/-! ## The outcome -/

/-- **The text ahead decides nothing but the sinks of leaves.**  Over a word that goes on, a
    run gets to the same positions of its first part as over that part alone, with the same
    past at each of them.  If the run over the first part succeeds, the other one gets to the
    end of that part, with as many leaves of each frame in all sinks together.  If it fails,
    the other one fails at the same symbol with the same past, which is what the run over the
    symbols before that one leaves. -/
theorem run_append (bindings : Bindings) (noise : Noise.Source) (u v : Word) (scene : Scene)
    (world : Collision.World) :
    (∀ k ≤ u.length,
      (∀ st, bindings.RunsTo noise u scene world k st →
        ∃ st', bindings.RunsTo noise (u ++ v) scene world k st' ∧ st.SamePast scene st') ∧
      (∀ st', bindings.RunsTo noise (u ++ v) scene world k st' →
        ∃ st, bindings.RunsTo noise u scene world k st ∧ st.SamePast scene st')) ∧
    ((bindings.run noise u scene world).failure = none →
      ∃ st', bindings.RunsTo noise (u ++ v) scene world u.length st' ∧
        (bindings.run noise u scene world).state.SamePast scene st' ∧
        (leavesOf (bindings.run noise u scene world).state.scene.leaves).Perm
          (leavesOf st'.scene.leaves)) ∧
    (∀ i, (bindings.run noise u scene world).failure = some (.stackUnderflow i) →
      (bindings.run noise (u ++ v) scene world).failure = some (.stackUnderflow i) ∧
      (bindings.run noise u scene world).state.SamePast scene
        (bindings.run noise (u ++ v) scene world).state ∧
      (bindings.run noise (u.take i) scene world).failure = none ∧
      (bindings.run noise (u.take i) scene world).state.SamePast scene
        (bindings.run noise u scene world).state) := by
  have h_agree : ∀ k ≤ u.length, ∀ i < k, (u ++ v)[i]? = u[i]? :=
    fun k h_k i h_i => List.getElem?_append_left (by omega)
  refine ⟨?_, ?_⟩
  · intro k h_k
    refine ⟨fun st h => h.samePast (u ++ v) (h_agree k h_k), fun st' h => ?_⟩
    obtain ⟨st, h_st, h_past⟩ := h.samePast u fun i h_i => (h_agree k h_k i h_i).symm
    exact ⟨st, h_st, h_past.symm⟩
  rcases run_cases bindings noise u scene world with ⟨last, h_last, h_run⟩ |
      ⟨j, symbol, last, e, h_last, h_symbol, h_step, h_run⟩
  · rw [h_run]
    refine ⟨fun _ => ?_, nofun⟩
    obtain ⟨st', h_st', h_past⟩ := h_last.samePast (u ++ v) (h_agree u.length (Nat.le_refl _))
    exact ⟨st', h_st', h_past, h_past.leavesOf_perm⟩
  · rw [h_run]
    refine ⟨nofun, ?_⟩
    rintro i h_i
    obtain ⟨h_j, -⟩ := List.getElem?_eq_some_iff.mp h_symbol
    obtain ⟨-, -, rfl⟩ := step_eq_error_iff.mp h_step
    cases h_i
    -- The longer run gets to the failing symbol, and it fails there too.
    obtain ⟨st', h_st', h_past⟩ := h_last.samePast (u ++ v) (h_agree j (Nat.le_of_lt h_j))
    have h_longer : bindings.run noise (u ++ v) scene world = ⟨st', some (.stackUnderflow j)⟩ :=
      h_st'.run_eq_of_error ((List.getElem?_append_left h_j).trans h_symbol)
        (step_error_elsewhere h_past.alongside h_step _ j)
    -- The shorter run ends right before it.
    obtain ⟨st'', h_st'', h_past'⟩ := h_last.samePast (u.take j)
      fun n h_n => List.getElem?_take_of_lt h_n
    have h_length : (u.take j).length = j := List.length_take_of_le (Nat.le_of_lt h_j)
    have h_shorter : bindings.run noise (u.take j) scene world = ⟨st'', none⟩ :=
      RunsTo.run_eq_of_length (h_length.symm ▸ h_st'')
    rw [h_longer, h_shorter]
    exact ⟨rfl, h_past, rfl, h_past'.symm⟩

/-- Where a leaf goes is not settled by the text up to it. -/
example :
    (bracketed.nesting "l".toList).deeperLeafAhead 0 = false ∧
    (bracketed.nesting "l[l]".toList).deeperLeafAhead 0 = true := by
  decide

end Bindings

end Verdure
