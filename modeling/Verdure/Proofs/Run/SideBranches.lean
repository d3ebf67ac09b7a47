/-
  Verdure.Proofs.Run.SideBranches

  Side branches, and what is drawn after them.

  If branches are not tested, what an operation does to the turtle, to the saved turtles and to
  the branches depends on the turtle, the saved turtles, the depth and the environment alone.
  States that agree in these are `Abreast`, and two runs over a word that are entered in such
  states stay abreast, gain the same branches, and fail at the same symbol if they fail
  (`runFrom_abreast`).  They need not be at the same position, nor run inside the same word.

  A group, a save and a restore around a balanced word, leaves a state that is abreast of the
  one before it (`exists_runFrom_group`).  So a run goes on after a group as if it were not
  there.
-/
import Verdure.Proofs.Run.Accounts
import Verdure.Proofs.Run.Balance

namespace Verdure

namespace RunState

/-! ## States abreast -/

/-- The states have the same turtles, depth and environment.  They may differ in their position,
    in what has been placed or stored, and in what has been counted. -/
structure Abreast (st st' : RunState) : Prop where
  turtle_eq : st'.turtle = st.turtle
  stack_eq : st'.stack = st.stack
  depth_eq : st'.depth = st.depth
  influences_eq : st'.scene.influences = st.scene.influences
  sunDirection_eq : st'.scene.sunDirection = st.scene.sunDirection

namespace Abreast

variable {st st' st'' : RunState}

theorem refl (st : RunState) : st.Abreast st := ⟨rfl, rfl, rfl, rfl, rfl⟩

theorem symm (h : st.Abreast st') : st'.Abreast st :=
  ⟨h.turtle_eq.symm, h.stack_eq.symm, h.depth_eq.symm, h.influences_eq.symm,
    h.sunDirection_eq.symm⟩

theorem trans (h : st.Abreast st') (h' : st'.Abreast st'') : st.Abreast st'' :=
  ⟨h'.turtle_eq.trans h.turtle_eq, h'.stack_eq.trans h.stack_eq, h'.depth_eq.trans h.depth_eq,
    h'.influences_eq.trans h.influences_eq, h'.sunDirection_eq.trans h.sunDirection_eq⟩

theorem move (h : st.Abreast st') (m : Mat4) : (st.move m).Abreast (st'.move m) :=
  { h with turtle_eq := congrArg (Turtle.move · m) h.turtle_eq }

end Abreast

/-- From two states, two others: these are abreast, and have gained the same branches. -/
structure GainAlike (st st' next next' : RunState) : Prop where
  abreast : next.Abreast next'
  gained : ∃ frames : Array Mat4, next.scene.branches = st.scene.branches ++ frames ∧
    next'.scene.branches = st'.scene.branches ++ frames

namespace GainAlike

variable {st st' next next' last last' : RunState}

theorem of_branches_eq (h : next.Abreast next')
    (h_branches : next.scene.branches = st.scene.branches)
    (h_branches' : next'.scene.branches = st'.scene.branches) : GainAlike st st' next next' :=
  ⟨h, #[], by rw [h_branches, Array.append_empty], by rw [h_branches', Array.append_empty]⟩

theorem trans (h : GainAlike st st' next next') (h' : GainAlike next next' last last') :
    GainAlike st st' last last' := by
  obtain ⟨frames, h_frames, h_frames'⟩ := h.gained
  obtain ⟨more, h_more, h_more'⟩ := h'.gained
  refine ⟨h'.abreast, frames ++ more, ?_, ?_⟩
  · rw [h_more, h_frames, Array.append_assoc]
  · rw [h_more', h_frames', Array.append_assoc]

end GainAlike

end RunState

/-! ## Operations -/

section Operations

variable {env env' : Surroundings} {st st' next : RunState}

open RunState (Abreast GainAlike)

/-- Without tests, a branch is drawn by turtle and depth. -/
theorem BranchStyle.Drawn.exists_gainAlike {style : BranchStyle} (h : style.Drawn st next)
    (h_abreast : st.Abreast st') (h_check : st.scene.influences.collisionCheck = false) :
    ∃ next', style.Drawn st' next' ∧ GainAlike st st' next next' := by
  have h_origin : st'.turtle.origin = st.turtle.origin := by rw [h_abreast.turtle_eq]
  have h_advance : style.advance st' = style.advance st := by
    rw [advance, advance, h_abreast.depth_eq]
  have h_frame : style.frameAt st' = style.frameAt st := by
    rw [frameAt, frameAt, h_abreast.turtle_eq, h_abreast.depth_eq]
  have h_check' : st'.scene.influences.collisionCheck = false := by
    rw [h_abreast.influences_eq, h_check]
  cases h with
  | low h_low =>
      have h_ground : st.countGround.Abreast st'.countGround := { h_abreast with }
      refine ⟨_, .low (h_origin ▸ h_low), .of_branches_eq ?_ rfl rfl⟩
      rw [h_advance]
      exact h_ground.move _
  | collides _ h_tested => simp [h_check] at h_tested
  | stored _ h_tested => simp [h_check] at h_tested
  | untested h_high =>
      have h_placed : (st.placeBranch (style.frameAt st)).Abreast
          (st'.placeBranch (style.frameAt st')) := { h_abreast with }
      refine ⟨_, .untested (h_origin ▸ h_high) h_check', ?_, #[style.frameAt st], ?_, ?_⟩
      · rw [h_advance]
        exact h_placed.move _
      · exact Array.push_eq_append
      · rw [← h_frame]
        exact Array.push_eq_append

/-- A leaf leaves a state abreast, with the same branches. -/
theorem LeafStyle.Drawn.abreast {style : LeafStyle} (h : style.Drawn env st next) :
    st.Abreast next ∧ next.scene.branches = st.scene.branches := by
  cases h <;> exact ⟨⟨rfl, rfl, rfl, rfl, rfl⟩, rfl⟩

theorem Turn.radians_eq_of_abreast (turn : Turn) (h_abreast : st.Abreast st')
    (h_noise : env'.noise = env.noise) : turn.radians env' st' = turn.radians env st := by
  rw [radians, radians, h_abreast.turtle_eq, h_noise]

/-- A pull bends both turtles by the same map. -/
theorem Pull.bend_abreast (pull : Pull) (h_abreast : st.Abreast st') :
    GainAlike st st' (pull.bend st) (pull.bend st') := by
  refine .of_branches_eq ?_ rfl rfl
  unfold bend
  rw [h_abreast.turtle_eq, h_abreast.depth_eq, h_abreast.influences_eq,
    h_abreast.sunDirection_eq]
  exact h_abreast.move _

/-- Without tests, an operation does the same in a state abreast, but for its leaves. -/
theorem Operation.Applied.exists_gainAlike {operation : Operation}
    (h : operation.Applied env st next) (h_abreast : st.Abreast st')
    (h_noise : env'.noise = env.noise)
    (h_check : st.scene.influences.collisionCheck = false) :
    ∃ next', operation.Applied env' st' next' ∧ GainAlike st st' next next' := by
  cases h with
  | branch h_drawn =>
      obtain ⟨next', h_drawn', h_gain⟩ := h_drawn.exists_gainAlike h_abreast h_check
      exact ⟨next', .branch h_drawn', h_gain⟩
  | @leaf style _ h_drawn =>
      -- The leaf may go to another sink here, or collide; none of it shows in turtle or branches.
      have h_drawn' := style.drawn env' st'
      obtain ⟨h_next, h_branches⟩ := h_drawn.abreast
      obtain ⟨h_next', h_branches'⟩ := h_drawn'.abreast
      exact ⟨_, .leaf h_drawn',
        .of_branches_eq (h_next.symm.trans (h_abreast.trans h_next')) h_branches h_branches'⟩
  | rotate turn =>
      refine ⟨_, .rotate turn, .of_branches_eq ?_ rfl rfl⟩
      rw [turn.radians_eq_of_abreast h_abreast h_noise]
      exact h_abreast.move _
  | tilt turn =>
      refine ⟨_, .tilt turn, .of_branches_eq ?_ rfl rfl⟩
      rw [turn.radians_eq_of_abreast h_abreast h_noise]
      exact h_abreast.move _
  | push =>
      refine ⟨_, .push, .of_branches_eq { h_abreast with stack_eq := ?_, depth_eq := ?_ } rfl rfl⟩
      · exact congrArg₂ List.cons h_abreast.turtle_eq h_abreast.stack_eq
      · exact congrArg (· + 1) h_abreast.depth_eq
  | pop saved stack h_stack =>
      refine ⟨_, .pop saved stack (h_abreast.stack_eq.trans h_stack), .of_branches_eq
        { h_abreast with turtle_eq := rfl, stack_eq := rfl, depth_eq := ?_ } rfl rfl⟩
      exact congrArg (· - 1) h_abreast.depth_eq
  | tick pull => exact ⟨_, .tick pull, pull.bend_abreast h_abreast⟩

end Operations

namespace Bindings

open RunState (Abreast GainAlike)

/-! ## Runs entered abreast -/

section Abreast

variable {bindings : Bindings} {env env' : Surroundings} {st st' next : RunState}

/-- Without tests, a symbol does the same in a state abreast, but for its leaf. -/
theorem exists_step_gainAlike {k : Nat} {symbol : Char}
    (h_step : bindings.step env k symbol st = .ok next) (h_abreast : st.Abreast st')
    (h_noise : env'.noise = env.noise) (h_check : st.scene.influences.collisionCheck = false)
    (k' : Nat) :
    ∃ next', bindings.step env' k' symbol st' = .ok next' ∧ GainAlike st st' next next' := by
  rcases step_cases h_step with ⟨h_unbound, rfl⟩ | ⟨operation, drawn, h_operation, h_applied, rfl⟩
  · exact ⟨st', step_of_unbound h_unbound env' k' st', .of_branches_eq h_abreast rfl rfl⟩
  · have h_here : { st with index := k }.Abreast { st' with index := k' } := { h_abreast with }
    obtain ⟨drawn', h_applied', h_gain⟩ := h_applied.exists_gainAlike h_here h_noise h_check
    exact ⟨drawn'.countSymbol, step_of_applied h_operation h_applied', { h_gain.abreast with },
      h_gain.gained⟩

/-- Neither of two runs over a word fails, or both fail at one of its symbols, whose position
    counts from where the word is entered. -/
def FailAlike (length k k' : Nat) (failure failure' : Option PlantError) : Prop :=
  (failure = none ∧ failure' = none) ∨
  ∃ i < length, failure = some (.stackUnderflow (k + i)) ∧
    failure' = some (.stackUnderflow (k' + i))

theorem FailAlike.eq_of_position {length k : Nat} {failure failure' : Option PlantError}
    (h : FailAlike length k k failure failure') : failure' = failure := by
  rcases h with ⟨h_none, h_none'⟩ | ⟨i, -, h_some, h_some'⟩
  · rw [h_none, h_none']
  · rw [h_some, h_some']

/-- Two runs over a word that are entered abreast end abreast, and gain the same branches. -/
theorem runFrom_abreast (bindings : Bindings) (env env' : Surroundings)
    (h_noise : env'.noise = env.noise) (word : Word) (k k' : Nat) (h_abreast : st.Abreast st')
    (h_check : st.scene.influences.collisionCheck = false) :
    GainAlike st st' (bindings.runFrom env k word st).state
      (bindings.runFrom env' k' word st').state ∧
    FailAlike word.length k k' (bindings.runFrom env k word st).failure
      (bindings.runFrom env' k' word st').failure := by
  -- The two states and both positions move on at every symbol, and the states stay abreast.
  induction word generalizing k k' st st' with
  | nil => exact ⟨.of_branches_eq h_abreast rfl rfl, .inl ⟨rfl, rfl⟩⟩
  | cons symbol rest ih =>
      rw [runFrom, runFrom]
      cases h_step : bindings.step env k symbol st with
      | ok next =>
          obtain ⟨next', h_step', h_gain⟩ :=
            exists_step_gainAlike h_step h_abreast h_noise h_check k'
          have h_check' : next.scene.influences.collisionCheck = false := by
            obtain ⟨ending, h_yields, -⟩ := step_yields h_step
            rw [← h_check, h_yields.alike.influences]
          obtain ⟨ih_gain, ih_fail⟩ := ih (k + 1) (k' + 1) h_gain.abreast h_check'
          rw [h_step']
          refine ⟨h_gain.trans ih_gain, ?_⟩
          rcases ih_fail with h_none | ⟨i, h_i, h_failure, h_failure'⟩
          · exact .inl h_none
          · -- A failure in the rest is one symbol further on in the whole.
            refine .inr ⟨i + 1, Nat.succ_lt_succ h_i, ?_, ?_⟩
            · rw [h_failure, Nat.add_assoc, Nat.add_comm 1]
            · rw [h_failure', Nat.add_assoc, Nat.add_comm 1]
      | error e =>
          -- A symbol fails only where no turtle is saved, and both runs have saved the same ones.
          obtain ⟨h_pop, h_stack, rfl⟩ := step_eq_error_iff.mp h_step
          have h_step' : bindings.step env' k' symbol st' = .error (.stackUnderflow k') :=
            step_of_isPop_nil h_pop (h_abreast.stack_eq.trans h_stack)
          rw [h_step']
          exact ⟨.of_branches_eq h_abreast rfl rfl, .inr ⟨0, Nat.succ_pos _, rfl, rfl⟩⟩

end Abreast

/-! ## Runs in parts -/

section Parts

/-- A run over two words goes on over the second one, unless it fails in the first one. -/
theorem runFrom_append (bindings : Bindings) (env : Surroundings) (k : Nat) (u v : Word)
    (st : RunState) :
    bindings.runFrom env k (u ++ v) st =
      match bindings.runFrom env k u st with
      | ⟨mid, none⟩ => bindings.runFrom env (k + u.length) v mid
      | ⟨mid, some e⟩ => ⟨mid, some e⟩ := by
  induction u generalizing k st with
  | nil => rfl
  | cons symbol rest ih =>
      rw [List.cons_append, runFrom, runFrom]
      cases bindings.step env k symbol st with
      | ok next =>
          simp only [ih, List.length_cons, Nat.add_assoc, Nat.add_comm 1]
      | error e => rfl

/-- A run leaves the environment. -/
theorem runFrom_alike (bindings : Bindings) (env : Surroundings) (k : Nat) (word : Word)
    (st : RunState) :
    st.scene.Alike (bindings.runFrom env k word st).state.scene := by
  induction word generalizing k st with
  | nil => exact ⟨rfl, rfl, rfl⟩
  | cons symbol rest ih =>
      rw [runFrom]
      cases h_step : bindings.step env k symbol st with
      | ok next =>
          obtain ⟨ending, h_yields, -⟩ := step_yields h_step
          exact h_yields.alike.trans (ih (k + 1) next)
      | error e => exact ⟨rfl, rfl, rfl⟩

variable {bindings : Bindings}

/-- Where a word climbs, a run over it does not fail.  It changes the saved turtles above a base
    alone, and has as many of them as the climb is high. -/
theorem runFrom_climb {env : Surroundings} {word : Word} {height last : Nat}
    (h_climb : bindings.climb height word = some last) {base : List Turtle} {floor : Nat}
    {st : RunState} (h_stack : ∃ above, st.stack = above ++ base ∧ above.length = height)
    (h_depth : st.depth = floor + height) (k : Nat) :
    ∃ mid, bindings.runFrom env k word st = ⟨mid, none⟩ ∧
      (∃ above, mid.stack = above ++ base ∧ above.length = last) ∧ mid.depth = floor + last := by
  induction word generalizing height k st with
  | nil =>
      cases h_climb
      exact ⟨st, rfl, h_stack, h_depth⟩
  | cons symbol rest ih =>
      obtain ⟨above, h_above, h_length⟩ := h_stack
      rw [runFrom]
      cases h_step : bindings.step env k symbol st with
      | ok next =>
          rw [climb] at h_climb
          rcases step_stack h_step with ⟨h_push, -, h_next, h_deeper⟩ |
              ⟨h_pop, h_next, h_deeper⟩ | ⟨h_push, h_pop, h_next, h_deeper⟩
          · rw [if_pos h_push] at h_climb
            refine ih h_climb ⟨st.turtle :: above, ?_, ?_⟩ (by omega) (k + 1)
            · rw [h_next, h_above, List.cons_append]
            · rw [List.length_cons, h_length]
          · rw [isPush_eq_false_of_isPop h_pop, if_neg Bool.false_ne_true, if_pos h_pop] at h_climb
            -- The climb is above zero, so that the turtle restored is one above the base.
            split at h_climb
            next => cases h_climb
            next h_pos =>
              cases above with
              | nil => exact absurd h_length.symm h_pos
              | cons saved above =>
                  rw [List.length_cons] at h_length
                  rw [h_above, List.cons_append] at h_next
                  refine ih h_climb ⟨above, ?_, by omega⟩ (by omega) (k + 1)
                  exact (List.cons.inj h_next).2.symm
          · rw [h_push, h_pop, if_neg Bool.false_ne_true, if_neg Bool.false_ne_true] at h_climb
            exact ih h_climb ⟨above, h_next.trans h_above, h_length⟩
              (h_deeper.trans h_depth) (k + 1)
      | error e =>
          -- A climb never goes below its base, so there is a turtle to restore.
          obtain ⟨h_pop, h_empty, -⟩ := step_eq_error_iff.mp h_step
          obtain ⟨rfl, -⟩ := List.append_eq_nil_iff.mp (h_above.symm.trans h_empty)
          subst h_length
          rw [climb, isPush_eq_false_of_isPop h_pop, if_neg Bool.false_ne_true, if_pos h_pop,
            if_pos List.length_nil] at h_climb
          cases h_climb

/-- A run over a balanced word does not fail, and leaves saved turtles and depth. -/
theorem Balanced.exists_runFrom_eq {word : Word} (h : bindings.Balanced word)
    (env : Surroundings) (k : Nat) (st : RunState) :
    ∃ mid, bindings.runFrom env k word st = ⟨mid, none⟩ ∧ mid.stack = st.stack ∧
      mid.depth = st.depth := by
  obtain ⟨mid, h_mid, ⟨above, h_above, h_length⟩, h_depth⟩ :=
    runFrom_climb (h.climb_eq 0) ⟨[], rfl, rfl⟩ rfl k
  obtain rfl := List.length_eq_zero_iff.mp h_length
  exact ⟨mid, h_mid, h_above, h_depth⟩

/-- After a group a run goes on abreast of the state before it, with the branches of the group. -/
theorem exists_runFrom_group {p q : Char} {w : Word} (h_push : bindings.isPush p = true)
    (h_pop : bindings.isPop q = true) (h_balanced : bindings.Balanced w) (env : Surroundings)
    (k : Nat) (v : Word) (st : RunState) :
    ∃ mid, bindings.runFrom env k (p :: w ++ q :: v) st
        = bindings.runFrom env (k + (w.length + 2)) v mid ∧
      st.Abreast mid ∧
      mid.scene.branches = (bindings.runFrom env k (p :: w) st).state.scene.branches := by
  have h_open : bindings.step env k p st = .ok ({ st with index := k }.save).countSymbol :=
    step_of_isPush h_push
  obtain ⟨mid, h_mid, h_stack, h_depth⟩ :=
    h_balanced.exists_runFrom_eq env (k + 1) ({ st with index := k }.save).countSymbol
  have h_group : bindings.runFrom env k (p :: w) st = ⟨mid, none⟩ := by
    rw [runFrom, h_open]
    exact h_mid
  have h_alike := runFrom_alike bindings env k (p :: w) st
  rw [h_group] at h_alike
  rw [runFrom_append, h_group]
  simp only [runFrom, step_of_isPop_cons h_pop h_stack]
  -- Turtle and saved turtles are those that the opening bracket saved; the depth is counted back.
  refine ⟨_, rfl, ⟨rfl, rfl, ?_, h_alike.influences.symm, h_alike.sunDirection.symm⟩, rfl⟩
  show mid.depth - 1 = st.depth
  rw [h_depth]
  rfl

/-- Three runs are entered abreast: one over a group that is not closed yet, one over the group
    and a word after it, and one over that word alone.  The second one gains the branches of the
    first and then those of the third, and it ends abreast of the third. -/
theorem runFrom_group {p q : Char} {w : Word} (h_push : bindings.isPush p = true)
    (h_pop : bindings.isPop q = true) (h_balanced : bindings.Balanced w)
    (env env' env'' : Surroundings) (h_noise : env'.noise = env.noise)
    (h_noise' : env''.noise = env'.noise) (k : Nat) (v : Word) {st st' st'' : RunState}
    (h_abreast : st.Abreast st') (h_abreast' : st'.Abreast st'')
    (h_check : st.scene.influences.collisionCheck = false) :
    ∃ ws vs : Array Mat4,
      (bindings.runFrom env k (p :: w) st).state.scene.branches = st.scene.branches ++ ws ∧
      (bindings.runFrom env' k (p :: w ++ q :: v) st').state.scene.branches
        = st'.scene.branches ++ ws ++ vs ∧
      (bindings.runFrom env'' k v st'').state.scene.branches = st''.scene.branches ++ vs ∧
      (bindings.runFrom env' k (p :: w ++ q :: v) st').state.Abreast
        (bindings.runFrom env'' k v st'').state ∧
      FailAlike v.length (k + (w.length + 2)) k
        (bindings.runFrom env' k (p :: w ++ q :: v) st').failure
        (bindings.runFrom env'' k v st'').failure := by
  obtain ⟨past, h_past, h_past_abreast, h_past_branches⟩ :=
    exists_runFrom_group h_push h_pop h_balanced env' k v st'
  have h_past_check : past.scene.influences.collisionCheck = false := by
    rw [h_past_abreast.influences_eq, h_abreast.influences_eq, h_check]
  -- The group is compared with itself under the other word, and what follows it with the same
  -- symbols at the positions they have without it.
  obtain ⟨⟨-, ws, h_ws, h_ws'⟩, -⟩ :=
    runFrom_abreast bindings env env' h_noise (p :: w) k k h_abreast h_check
  obtain ⟨⟨h_end, vs, h_vs, h_vs'⟩, h_fail⟩ :=
    runFrom_abreast bindings env' env'' h_noise' v (k + (w.length + 2)) k
      (h_past_abreast.symm.trans h_abreast') h_past_check
  rw [h_past]
  refine ⟨ws, vs, h_ws, ?_, h_vs', h_end, h_fail⟩
  rw [h_vs, h_past_branches, h_ws']

end Parts

/-! ## The outcome -/

/-- Without tests, a run over a word that goes on does the same over its first part, but for the
    leaves. -/
theorem exists_run_append (bindings : Bindings) (noise : Noise.Source) (u v : Word) (scene : Scene)
    (world : Collision.World) (h_check : scene.influences.collisionCheck = false) :
    ∃ mid, (bindings.run noise u scene world).state.Abreast mid ∧
      mid.scene.branches = (bindings.run noise u scene world).state.scene.branches ∧
      bindings.run noise (u ++ v) scene world =
        match (bindings.run noise u scene world).failure with
        | none => bindings.runFrom ⟨bindings.nesting (u ++ v), noise⟩ u.length v mid
        | some e => ⟨mid, some e⟩ := by
  obtain ⟨⟨h_abreast, frames, h_frames, h_frames'⟩, h_fail⟩ :=
    runFrom_abreast bindings ⟨bindings.nesting u, noise⟩ ⟨bindings.nesting (u ++ v), noise⟩ rfl u
      0 0 (.refl { scene, world }) h_check
  refine ⟨_, h_abreast, h_frames'.trans h_frames.symm, ?_⟩
  rw [run, run, runFrom_append, ← h_fail.eq_of_position]
  rcases bindings.runFrom ⟨bindings.nesting (u ++ v), noise⟩ 0 u { scene, world }
    with ⟨mid, _ | e⟩
  · rw [Nat.zero_add]
  · rfl

/-- **Side branches do not disturb the rest.**  If branches are not tested, a group between two
    parts of a word adds its own branches between those of the two parts, and those are the same
    as without the group.  Either way the run ends at the same turtle, with the same turtles
    saved and at the same depth.  If it gets past the first part, then with and without the
    group it does not fail, or it fails at the same symbol of the second part.  Neighbour
    counts have their room (`PointTree.HasRoom`). -/
theorem run_side_branch (bindings : Bindings) (noise : Noise.Source) (u w v : Word) (p q : Char)
    (scene : Scene) (world : Collision.World)
    (h_check : scene.influences.collisionCheck = false) (h_push : bindings.isPush p = true)
    (h_pop : bindings.isPop q = true) (h_balanced : bindings.Balanced w) :
    (∃ us ws vs : Array Mat4,
      (bindings.run noise u scene world).state.scene.branches = scene.branches ++ us ∧
      (bindings.run noise (u ++ p :: w) scene world).state.scene.branches
        = scene.branches ++ us ++ ws ∧
      (bindings.run noise (u ++ p :: w ++ q :: v) scene world).state.scene.branches
        = scene.branches ++ us ++ ws ++ vs ∧
      (bindings.run noise (u ++ v) scene world).state.scene.branches
        = scene.branches ++ us ++ vs) ∧
    (bindings.run noise (u ++ p :: w ++ q :: v) scene world).state.turtle
      = (bindings.run noise (u ++ v) scene world).state.turtle ∧
    (bindings.run noise (u ++ p :: w ++ q :: v) scene world).state.stack
      = (bindings.run noise (u ++ v) scene world).state.stack ∧
    (bindings.run noise (u ++ p :: w ++ q :: v) scene world).state.depth
      = (bindings.run noise (u ++ v) scene world).state.depth ∧
    ((bindings.run noise u scene world).failure = none →
      FailAlike v.length (u.length + (w.length + 2)) u.length
        (bindings.run noise (u ++ p :: w ++ q :: v) scene world).failure
        (bindings.run noise (u ++ v) scene world).failure) ∧
    (∀ e, (bindings.run noise u scene world).failure = some e →
      (bindings.run noise (u ++ p :: w ++ q :: v) scene world).failure = some e ∧
      (bindings.run noise (u ++ v) scene world).failure = some e) := by
  -- After the first part all three words go on from states that are abreast of one another.
  obtain ⟨opened, h_opened, h_opened_branches, h_opened_run⟩ :=
    exists_run_append bindings noise u (p :: w) scene world h_check
  obtain ⟨long, h_long, h_long_branches, h_long_run⟩ :=
    exists_run_append bindings noise u (p :: w ++ q :: v) scene world h_check
  obtain ⟨short, h_short, h_short_branches, h_short_run⟩ :=
    exists_run_append bindings noise u v scene world h_check
  obtain ⟨us, h_us⟩ : ∃ us, (bindings.run noise u scene world).state.scene.branches
      = scene.branches ++ us := by
    obtain ⟨⟨-, us, h_us, -⟩, -⟩ :=
      runFrom_abreast bindings ⟨bindings.nesting u, noise⟩ _ rfl u 0 0 (.refl { scene, world })
        h_check
    exact ⟨us, h_us⟩
  rw [h_us] at h_opened_branches h_long_branches h_short_branches
  rw [List.append_assoc, h_opened_run, h_long_run, h_short_run]
  cases h_failure : (bindings.run noise u scene world).failure with
  | none =>
      have h_opened_check : opened.scene.influences.collisionCheck = false := by
        have h_alike := runFrom_alike bindings ⟨bindings.nesting u, noise⟩ 0 u { scene, world }
        rw [h_opened.influences_eq, run, ← h_alike.influences, h_check]
      obtain ⟨ws, vs, h_ws, h_vs, h_vs', h_end, h_fail⟩ :=
        runFrom_group h_push h_pop h_balanced ⟨bindings.nesting (u ++ p :: w), noise⟩
          ⟨bindings.nesting (u ++ (p :: w ++ q :: v)), noise⟩
          ⟨bindings.nesting (u ++ v), noise⟩ rfl rfl u.length v (h_opened.symm.trans h_long)
          (h_long.symm.trans h_short) h_opened_check
      rw [h_opened_branches] at h_ws
      rw [h_long_branches] at h_vs
      rw [h_short_branches] at h_vs'
      refine ⟨⟨us, ws, vs, h_us, h_ws, h_vs, h_vs'⟩, h_end.turtle_eq.symm, h_end.stack_eq.symm,
        h_end.depth_eq.symm, fun _ => h_fail, ?_⟩
      intro e h_e
      cases h_e
  | some e =>
      -- All runs stop in the first part, before anything else is drawn.
      have h_end : long.Abreast short := h_long.symm.trans h_short
      refine ⟨⟨us, #[], #[], h_us, ?_, ?_, ?_⟩, h_end.turtle_eq.symm, h_end.stack_eq.symm,
        h_end.depth_eq.symm, ?_, ?_⟩
      · rw [h_opened_branches, Array.append_empty]
      · rw [h_long_branches, Array.append_empty, Array.append_empty]
      · rw [h_short_branches, Array.append_empty]
      · intro h_none
        cases h_none
      · intro e' h_e
        exact ⟨h_e, h_e⟩

/-- In `D[DD+]D` the group adds two branches between those of `DD`. -/
theorem run_side_branch_drawn :
    ∃ us ws vs : Array Mat4, us.size = 1 ∧ ws.size = 2 ∧ vs.size = 1 ∧
      (branchingBindings.run (.ofSeed 7) ['D', '[', 'D', 'D', '+', ']', 'D']
        { influences.collisionCheck := false } .empty).state.scene.branches = us ++ ws ++ vs ∧
      (branchingBindings.run (.ofSeed 7) ['D', 'D']
        { influences.collisionCheck := false } .empty).state.scene.branches = us ++ vs := by
  have h_size : (branchingBindings.run (.ofSeed 7) ['D']
        { influences.collisionCheck := false } .empty).state.scene.branches.size = 1 ∧
      (branchingBindings.run (.ofSeed 7) ['D', '[', 'D', 'D', '+']
        { influences.collisionCheck := false } .empty).state.scene.branches.size = 3 ∧
      (branchingBindings.run (.ofSeed 7) ['D', 'D']
        { influences.collisionCheck := false } .empty).state.scene.branches.size = 2 := by
    decide +kernel
  obtain ⟨⟨us, ws, vs, h_us, h_ws, h_long, h_short⟩, -⟩ :=
    run_side_branch branchingBindings (.ofSeed 7) ['D'] ['D', 'D', '+'] ['D'] '[' ']'
      { influences.collisionCheck := false } .empty rfl (by decide) (by decide) (by decide)
  simp only [List.cons_append, List.nil_append, Array.empty_append] at h_us h_ws h_long h_short
  rw [h_us, h_ws, h_short, Array.size_append, Array.size_append] at h_size
  exact ⟨us, ws, vs, by omega, by omega, by omega, h_long, h_short⟩

end Bindings

end Verdure
