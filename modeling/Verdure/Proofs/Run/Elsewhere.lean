/-
  Verdure.Proofs.Run.Elsewhere

  What an operation does elsewhere.

  Of its position, and of the word around it, an operation reads one thing: whether a deeper
  leaf follows, which picks the sink of a leaf.  So in a state that differs in its position
  and in what its leaf sinks hold, and in surroundings with the same noise, it does the same,
  but that a leaf may go to another sink (`step_elsewhere`).
-/
import Verdure.Proofs.Run.Drawing
import Verdure.Proofs.Run.LeafSinks

namespace Verdure

namespace RunState

/-- The state at another position, with other sinks for leaves. -/
def elsewhere (st : RunState) (index : Nat) (sinks : Array (Array Mat4)) : RunState :=
  { st with index, scene := { st.scene with leaves := sinks } }

/-- The states differ in their position and in what their leaf sinks hold, and in nothing
    else. -/
structure Alongside (st st' : RunState) : Prop where
  eq_elsewhere : st' = st.elsewhere st'.index st'.scene.leaves
  size_leaves : st'.scene.leaves.size = st.scene.leaves.size

theorem Alongside.refl (st : RunState) : st.Alongside st := ⟨rfl, rfl⟩

section Alongside

variable {st st' : RunState} (h : st.Alongside st')
include h

theorem Alongside.eq_of_index (h_index : st'.index = st.index) :
    st' = { st with scene.leaves := st'.scene.leaves } := by
  have h_eq := h.eq_elsewhere
  rw [elsewhere, h_index] at h_eq
  exact h_eq

theorem Alongside.turtle_eq : st'.turtle = st.turtle := by
  rw [h.eq_elsewhere]
  rfl

theorem Alongside.stack_eq : st'.stack = st.stack := by
  rw [h.eq_elsewhere]
  rfl

theorem Alongside.world_eq : st'.world = st.world := by
  rw [h.eq_elsewhere]
  rfl

theorem Alongside.finalSummary_eq : st'.finalSummary = st.finalSummary := by
  rw [h.eq_elsewhere]
  rfl

theorem Alongside.scene_eq (h_leaves : st'.scene.leaves = st.scene.leaves) :
    st'.scene = st.scene :=
  calc st'.scene
      = { st.scene with leaves := st'.scene.leaves } := congrArg scene h.eq_elsewhere
    _ = st.scene := by rw [h_leaves]

end Alongside

/-- The leaf sinks of two states after an operation that does nothing to them, or that adds
    one leaf, in each state to the sink that is picked there. -/
inductive SameLeaf (env env' : Surroundings) (st st' : RunState) :
    Array (Array Mat4) → Array (Array Mat4) → Prop
  | none : SameLeaf env env' st st' st.scene.leaves st'.scene.leaves
  | leaf (style : LeafStyle) (frame : Mat4) (h_sinks : 0 < st.scene.leaves.size) :
      SameLeaf env env' st st'
        (st.scene.leaves.modify (style.variantAt env st) (·.push frame))
        (st'.scene.leaves.modify (style.variantAt env' st') (·.push frame))

namespace SameLeaf

variable {env env' : Surroundings} {st st' : RunState} {filled filled' : Array (Array Mat4)}

theorem size_eq (h : SameLeaf env env' st st' filled filled')
    (h_size : st'.scene.leaves.size = st.scene.leaves.size) : filled'.size = filled.size := by
  cases h with
  | none => exact h_size
  | leaf => rw [Array.size_modify, Array.size_modify, h_size]

/-- If both states look ahead alike, the leaf goes to the same sink. -/
theorem eq_of_lookahead (h : SameLeaf env env' st st' filled filled')
    (h_noise : env'.noise = env.noise) (h_turtle : st'.turtle = st.turtle)
    (h_leaves : st'.scene.leaves = st.scene.leaves)
    (h_ahead : env'.nesting.deeperLeafAhead st'.index = env.nesting.deeperLeafAhead st.index) :
    filled' = filled := by
  cases h with
  | none => exact h_leaves
  | leaf style frame =>
      have h_variant : style.variantAt env' st' = style.variantAt env st := by
        rw [LeafStyle.variantAt, LeafStyle.variantAt, h_leaves, h_ahead, h_noise, h_turtle]
      rw [h_leaves, h_variant]

/-- Whichever sinks are picked, the same leaves were dealt to both states. -/
theorem dealt (h : SameLeaf env env' st st' filled filled')
    (h_size : st'.scene.leaves.size = st.scene.leaves.size) {sinks : Array (Array Mat4)}
    {frames : List Mat4} (h_dealt : Dealt sinks frames st.scene.leaves)
    (h_dealt' : Dealt sinks frames st'.scene.leaves) :
    ∃ frames', Dealt sinks frames' filled ∧ Dealt sinks frames' filled' := by
  cases h with
  | none => exact ⟨frames, h_dealt, h_dealt'⟩
  | leaf style frame h_sinks =>
      exact ⟨frames ++ [frame], h_dealt.snoc (style.variantAt_lt env st h_sinks) frame,
        h_dealt'.snoc (style.variantAt_lt env' st' (h_size ▸ h_sinks)) frame⟩

end SameLeaf

end RunState

/-! ## Operations -/

section Operations

variable {env env' : Surroundings} {st next : RunState} {k : Nat} {sinks : Array (Array Mat4)}

open RunState (SameLeaf)

theorem BranchStyle.Drawn.elsewhere {style : BranchStyle} (h : style.Drawn st next) :
    style.Drawn (st.elsewhere k sinks) (next.elsewhere k sinks) ∧
      next.scene.leaves = st.scene.leaves := by
  cases h with
  | low h_low => exact ⟨.low h_low, rfl⟩
  | collides h_high h_check id h_collision => exact ⟨.collides h_high h_check id h_collision, rfl⟩
  | stored h_high h_check h_free => exact ⟨.stored h_high h_check h_free, rfl⟩
  | untested h_high h_check => exact ⟨.untested h_high h_check, rfl⟩

theorem LeafStyle.Drawn.elsewhere {style : LeafStyle} (h : style.Drawn env st next)
    (h_size : sinks.size = st.scene.leaves.size) :
    ∃ filled, style.Drawn env' (st.elsewhere k sinks) (next.elsewhere k filled) ∧
      SameLeaf env env' st (st.elsewhere k sinks) next.scene.leaves filled := by
  have h_empty : (st.elsewhere k sinks).scene.leaves.isEmpty = st.scene.leaves.isEmpty := by
    rw [Array.isEmpty, Array.isEmpty, ← h_size]
    rfl
  -- The test for depth and sinks turns out the same there.
  have h_skips : (st.elsewhere k sinks).depth < style.minDepth ∨
        (st.elsewhere k sinks).scene.leaves.isEmpty = true ↔
      st.depth < style.minDepth ∨ st.scene.leaves.isEmpty = true := by
    rw [h_empty]
    rfl
  have h_leaf : ¬(st.depth < style.minDepth ∨ st.scene.leaves.isEmpty = true) →
      SameLeaf env env' st (st.elsewhere k sinks)
        (st.scene.leaves.modify (style.variantAt env st) (·.push (style.frameAt st)))
        (sinks.modify (style.variantAt env' (st.elsewhere k sinks))
          (·.push (style.frameAt st))) := by
    rw [not_or, Array.isEmpty_iff_size_eq_zero]
    exact fun h_fits => .leaf style (style.frameAt st) (Nat.pos_of_ne_zero h_fits.2)
  cases h with
  | skipped h_skip => exact ⟨sinks, .skipped (h_skips.mpr h_skip), .none⟩
  | low h_fits h_low => exact ⟨sinks, .low (mt h_skips.mp h_fits) h_low, .none⟩
  | collides h_fits h_high spacing h_spacing id h_collision =>
      exact ⟨sinks, .collides (mt h_skips.mp h_fits) h_high spacing h_spacing id h_collision, .none⟩
  | untested h_fits h_high h_spacing =>
      exact ⟨_, .untested (mt h_skips.mp h_fits) h_high h_spacing, h_leaf h_fits⟩
  | stored h_fits h_high spacing h_spacing h_free =>
      exact ⟨_, .stored (mt h_skips.mp h_fits) h_high spacing h_spacing h_free, h_leaf h_fits⟩

theorem Operation.Applied.index_eq {operation : Operation} (h : operation.Applied env st next) :
    next.index = st.index := by
  cases h with
  | branch h_drawn => cases h_drawn <;> rfl
  | leaf h_drawn => cases h_drawn <;> rfl
  | rotate | tilt | push | pop | tick => rfl

theorem Turn.radians_elsewhere (turn : Turn) (h_noise : env'.noise = env.noise) :
    turn.radians env' (st.elsewhere k sinks) = turn.radians env st := by
  rw [radians, radians, h_noise]
  rfl

theorem Operation.Applied.elsewhere {operation : Operation} (h : operation.Applied env st next)
    (h_noise : env'.noise = env.noise) (h_size : sinks.size = st.scene.leaves.size) :
    ∃ filled, operation.Applied env' (st.elsewhere k sinks) (next.elsewhere k filled) ∧
      SameLeaf env env' st (st.elsewhere k sinks) next.scene.leaves filled := by
  cases h with
  | branch h_drawn =>
      obtain ⟨h_drawn', h_leaves⟩ := h_drawn.elsewhere
      exact ⟨sinks, .branch h_drawn', h_leaves ▸ .none⟩
  | leaf h_drawn =>
      obtain ⟨filled, h_drawn', h_leaf⟩ := h_drawn.elsewhere h_size
      exact ⟨filled, .leaf h_drawn', h_leaf⟩
  | rotate turn =>
      refine ⟨sinks, ?_, .none⟩
      rw [← turn.radians_elsewhere h_noise]
      exact .rotate turn
  | tilt turn =>
      refine ⟨sinks, ?_, .none⟩
      rw [← turn.radians_elsewhere h_noise]
      exact .tilt turn
  | push => exact ⟨sinks, .push, .none⟩
  | pop saved stack h_stack => exact ⟨sinks, .pop saved stack h_stack, .none⟩
  | tick pull => exact ⟨sinks, .tick pull, .none⟩

end Operations

/-! ## Symbols -/

namespace Bindings

variable {bindings : Bindings} {env : Surroundings} {st st' next : RunState} {i : Nat}
  {symbol : Char}

/-- A symbol does elsewhere what it does here, but that its leaf may go to another sink. -/
theorem step_elsewhere (h : st.Alongside st') (h_step : bindings.step env i symbol st = .ok next)
    (env' : Surroundings) (h_noise : env'.noise = env.noise) (i' : Nat) :
    ∃ next', bindings.step env' i' symbol st' = .ok next' ∧ next.Alongside next' ∧
      (st'.index = st.index → i' = i → next'.index = next.index) ∧
      RunState.SameLeaf env env' { st with index := i } { st' with index := i' }
        next.scene.leaves next'.scene.leaves := by
  rcases step_cases h_step with ⟨h_unbound, rfl⟩ | ⟨operation, drawn, h_operation, h_applied, rfl⟩
  · exact ⟨st', step_of_unbound h_unbound env' i' st', h, fun h_index _ => h_index, .none⟩
  · have h_st' : { st' with index := i' }
        = { st with index := i }.elsewhere i' st'.scene.leaves := by
      rw [h.eq_elsewhere]
      rfl
    obtain ⟨filled, h_applied', h_leaf⟩ := h_applied.elsewhere h_noise h.size_leaves
    rw [← h_st'] at h_applied' h_leaf
    have h_size := h_leaf.size_eq h.size_leaves
    exact ⟨(drawn.elsewhere i' filled).countSymbol, step_of_applied h_operation h_applied',
      ⟨rfl, h_size⟩, fun _ h_i => h_i.trans h_applied.index_eq.symm, h_leaf⟩

/-- A symbol that fails here fails elsewhere. -/
theorem step_error_elsewhere (h : st.Alongside st') {e : PlantError}
    (h_step : bindings.step env i symbol st = .error e) (env' : Surroundings) (i' : Nat) :
    bindings.step env' i' symbol st' = .error (.stackUnderflow i') := by
  obtain ⟨h_pop, h_stack, -⟩ := step_eq_error_iff.mp h_step
  exact step_eq_error_iff.mpr ⟨h_pop, h.stack_eq.trans h_stack, rfl⟩

end Bindings

end Verdure
