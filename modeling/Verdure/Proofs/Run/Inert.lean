/-
  Verdure.Proofs.Run.Inert

  Runs without the symbols that do nothing.

  A symbol acts if it has an operation or marks leaves for the look-ahead.  Without the
  symbols that do not act a word is shorter, and every position in it is another one; but the
  look-ahead at each symbol that a run gets past is the same, as the level after it is never
  below the depth of the run and so is positive.  So a run over the shorter word has the same
  states (`RunsTo.acting`), and the same outcome.
-/
import Verdure.Proofs.Nesting.Inert
import Verdure.Proofs.Run.Attempts
import Verdure.Proofs.Run.Elsewhere

namespace Verdure.Bindings

/-- The symbol has an operation, or it marks leaves. -/
def acts (bindings : Bindings) (symbol : Char) : Bool :=
  bindings.binds symbol || symbol == bindings.leafMarker

/-- The symbols of a word that act. -/
def acting (bindings : Bindings) (word : Word) : Word := word.filter bindings.acts

/-- The level of a word before a position. -/
def levelBefore (bindings : Bindings) (word : Word) (k : Nat) : Int :=
  (word.take k).foldl (Nesting.levelAfter bindings.isPush bindings.isPop bindings.leafMarker)
    initialDepth

section Word

variable {bindings : Bindings} {symbol : Char}

theorem operation?_of_not_acts (h : bindings.acts symbol = false) :
    bindings.operation? symbol = none := by
  have h_binds := (Bool.or_eq_false_iff.mp h).1
  rwa [binds, Option.isSome_eq_false_iff, Option.isNone_iff_eq_none] at h_binds

theorem inert_of_not_acts (symbol : Char) (h : bindings.acts symbol = false) :
    Nesting.Inert bindings.isPush bindings.isPop bindings.leafMarker symbol where
  not_push := by
    rw [isPush, operation?_of_not_acts h]
    rfl
  not_pop := by
    rw [isPop, operation?_of_not_acts h]
    rfl
  not_leaf := by
    have h_marker := (Bool.or_eq_false_iff.mp h).2
    exact beq_eq_false_iff_ne.mp h_marker

theorem acts_of_isPop (h : bindings.isPop symbol = true) : bindings.acts symbol = true := by
  rw [acts, binds, isPop_iff.mp h]
  rfl

theorem eq_take_append_cons_drop {word : Word} {k : Nat} (h : word[k]? = some symbol) :
    word = word.take k ++ symbol :: word.drop (k + 1) := by
  obtain ⟨h_k, rfl⟩ := List.getElem?_eq_some_iff.mp h
  rw [← List.drop_eq_getElem_cons h_k, List.take_append_drop]

/-- A symbol that acts is one of the symbols that act, at the position that counts those
    before it. -/
theorem getElem?_acting {word : Word} {k : Nat} (h_symbol : word[k]? = some symbol)
    (h_acts : bindings.acts symbol = true) :
    (bindings.acting word)[(word.take k).countP bindings.acts]? = some symbol := by
  have h_acting : bindings.acting word
      = bindings.acting (word.take k) ++ symbol :: bindings.acting (word.drop (k + 1)) := by
    have h_word := congrArg bindings.acting (eq_take_append_cons_drop h_symbol)
    rwa [acting, acting, List.filter_append, List.filter_cons_of_pos h_acts] at h_word
  rw [h_acting, List.countP_eq_length_filter, ← acting, List.getElem?_append_right (Nat.le_refl _),
    Nat.sub_self]
  rfl

/-- The look-ahead at a symbol after which the level is positive is the same without the
    symbols that do not act. -/
theorem deeperLeafAhead_acting {word : Word} {k : Nat} (h_symbol : word[k]? = some symbol)
    (h_acts : bindings.acts symbol = true)
    (h_level : 0 < bindings.levelBefore word (k + 1)) :
    (bindings.nesting (bindings.acting word)).deeperLeafAhead
        ((word.take k).countP bindings.acts)
      = (bindings.nesting word).deeperLeafAhead k := by
  obtain ⟨h_k, -⟩ := List.getElem?_eq_some_iff.mp h_symbol
  have h_word := eq_take_append_cons_drop h_symbol
  rw [levelBefore, List.take_add_one, h_symbol, Option.toList_some, List.foldl_append] at h_level
  have h_ahead := Nesting.deeperLeafAhead_filter inert_of_not_acts initialDepth (word.take k)
    (word.drop (k + 1)) h_acts h_level
  rw [← h_word, List.length_take_of_le (Nat.le_of_lt h_k), ← List.countP_eq_length_filter]
    at h_ahead
  exact h_ahead

end Word

section Run

variable {bindings : Bindings} {noise : Noise.Source} {word : Word} {scene : Scene}
  {world : Collision.World} {k : Nat} {st : RunState}

/-- The depth of a run is never above the level of its word.  The two part only where the
    leaf marker restores. -/
theorem RunsTo.depth_le_level (h : bindings.RunsTo noise word scene world k st) :
    (st.depth : Int) ≤ bindings.levelBefore word k := by
  induction h with
  | start => exact Int.le_refl _
  | @step k symbol st next h_before h_symbol h_step ih =>
      have h_depth : st.depth = 1 + st.stack.length := (RunsTo.stack_height h_before).2
      rw [levelBefore, List.take_add_one, h_symbol, Option.toList_some, List.foldl_append,
        ← levelBefore, List.foldl_cons, List.foldl_nil, Nesting.levelAfter]
      rcases step_stack h_step with ⟨h_push, -, -, h_next⟩ | ⟨h_pop, -, h_next⟩ |
          ⟨h_push, h_pop, -, h_next⟩
      · rw [if_pos h_push]
        omega
      · -- A leaf marker that restores keeps the level; any other such symbol lowers both.
        rw [isPush_eq_false_of_isPop h_pop, if_neg Bool.false_ne_true]
        split <;> omega
      · rw [h_push, h_pop, if_neg Bool.false_ne_true, if_neg Bool.false_ne_true, ite_self]
        omega

/-- Where a run gets past a symbol, the level is positive. -/
theorem RunsTo.level_pos (h : bindings.RunsTo noise word scene world k st) :
    0 < bindings.levelBefore word k := by
  have h_level := h.depth_le_level
  have h_depth := h.stack_height.2
  omega

/-- A run over the symbols that act has the same states, at other positions. -/
theorem RunsTo.acting (h : bindings.RunsTo noise word scene world k st) :
    ∃ st', bindings.RunsTo noise (bindings.acting word) scene world
        ((word.take k).countP bindings.acts) st' ∧
      st.Alongside st' ∧ st'.scene.leaves = st.scene.leaves := by
  induction h with
  | start => exact ⟨_, .start, .refl _, rfl⟩
  | @step k symbol st next h_before h_symbol h_step ih =>
      obtain ⟨st', h_st', h_along, h_leaves⟩ := ih
      have h_next : bindings.RunsTo noise word scene world (k + 1) next :=
        h_before.step h_symbol h_step
      cases h_acts : bindings.acts symbol with
      | false =>
          -- The symbol is not in the shorter word, and changes nothing in the longer one.
          rw [step_of_unbound (operation?_of_not_acts h_acts)] at h_step
          cases h_step
          refine ⟨st', ?_, h_along, h_leaves⟩
          rwa [countP_take_succ _ h_symbol, h_acts]
      | true =>
          -- The leaf that is drawn depends on the symbols ahead, not only on the state; deleting
          -- inert ones keeps what is seen there, since the level is positive.
          have h_symbol' := getElem?_acting h_symbol h_acts
          obtain ⟨next', h_step', h_along', -, h_leaf⟩ := step_elsewhere h_along h_step
            ⟨bindings.nesting (bindings.acting word), noise⟩ rfl
            ((word.take k).countP bindings.acts)
          refine ⟨next', ?_, h_along', ?_⟩
          · rw [countP_take_succ _ h_symbol, h_acts]
            exact h_st'.step h_symbol' h_step'
          · exact h_leaf.eq_of_lookahead rfl h_along.turtle_eq h_leaves
              (deeperLeafAhead_acting h_symbol h_acts h_next.level_pos)

end Run

/-! ## The outcome -/

/-- **Symbols that do not act are inert.**  A run leaves the scene and the world the same if
    they are deleted from its word.  It succeeds with the same counts, or it fails at the same
    symbol: the positions at which the two runs fail differ by the number of symbols deleted
    before it.  Neighbour counts have their room (`PointTree.HasRoom`). -/
theorem run_acting (bindings : Bindings) (noise : Noise.Source) (word : Word) (scene : Scene)
    (world : Collision.World) :
    (bindings.run noise (bindings.acting word) scene world).state.scene
      = (bindings.run noise word scene world).state.scene ∧
    (bindings.run noise (bindings.acting word) scene world).state.world
      = (bindings.run noise word scene world).state.world ∧
    ((∃ summary, (bindings.run noise word scene world).result = .ok summary ∧
        (bindings.run noise (bindings.acting word) scene world).result = .ok summary) ∨
      ∃ i j symbol, word[i]? = some symbol ∧ (bindings.acting word)[j]? = some symbol ∧
        j + (word.take i).countP (fun symbol => !bindings.acts symbol) = i ∧
        (bindings.run noise word scene world).result = .error (.stackUnderflow i) ∧
        (bindings.run noise (bindings.acting word) scene world).result
          = .error (.stackUnderflow j)) := by
  rcases run_cases bindings noise word scene world with ⟨last, h_last, h_run⟩ |
      ⟨i, symbol, last, e, h_last, h_symbol, h_step, h_run⟩
  · obtain ⟨last', h_last', h_along, h_leaves⟩ := h_last.acting
    rw [List.take_length, List.countP_eq_length_filter] at h_last'
    have h_run' : bindings.run noise (bindings.acting word) scene world = ⟨last', none⟩ :=
      h_last'.run_eq_of_length
    rw [h_run, h_run']
    refine ⟨h_along.scene_eq h_leaves, h_along.world_eq, .inl ⟨last.finalSummary, rfl, ?_⟩⟩
    exact congrArg Except.ok h_along.finalSummary_eq
  · -- The symbol that fails restores, so that it acts and is in the shorter word too.
    obtain ⟨last', h_last', h_along, h_leaves⟩ := h_last.acting
    obtain ⟨h_pop, -, rfl⟩ := step_eq_error_iff.mp h_step
    have h_symbol' := getElem?_acting h_symbol (acts_of_isPop h_pop)
    have h_run' := h_last'.run_eq_of_error h_symbol' (step_error_elsewhere h_along h_step _ _)
    have h_deleted : (word.take i).countP bindings.acts +
        (word.take i).countP (fun symbol => !bindings.acts symbol) = i := by
      obtain ⟨h_i, -⟩ := List.getElem?_eq_some_iff.mp h_symbol
      have h_length := List.length_eq_countP_add_countP bindings.acts (l := word.take i)
      rw [List.length_take_of_le (Nat.le_of_lt h_i)] at h_length
      simpa using h_length.symm
    rw [h_run, h_run']
    exact ⟨h_along.scene_eq h_leaves, h_along.world_eq,
      .inr ⟨i, _, symbol, h_symbol, h_symbol', h_deleted, rfl, rfl⟩⟩

/-- `x` has no operation here. -/
example :
    (bracketed.run (.ofSeed 7) "x[x]]x".toList {} .empty).result = .error (.stackUnderflow 4) ∧
    bracketed.acting "x[x]]x".toList = "[]]".toList ∧
    (bracketed.run (.ofSeed 7) "[]]".toList {} .empty).result = .error (.stackUnderflow 2) := by
  decide

end Verdure.Bindings
