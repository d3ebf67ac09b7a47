/-
  Verdure.Proofs.Run.Brackets

  Saving and restoring over whole runs.  The outcome of a run is fixed by the brackets of
  its word alone, and a group between a save and the restore that closes it leaves turtle,
  stack and depth as they were before it.

  Both rest on what one symbol does to the stack (`step_stack`, `step_eq_error_iff`) and on
  the height of the word at each position, which the stack has as its length.
-/
import Verdure.Proofs.Run.Reaches

namespace Verdure

/-! ## One operation -/

/-- Drawing a branch leaves the saved turtles and the depth alone on every path. -/
theorem BranchStyle.draw_stack_depth (style : BranchStyle) (st : RunState) :
    (style.draw st).stack = st.stack ∧ (style.draw st).depth = st.depth := by
  unfold BranchStyle.draw
  dsimp only
  split
  · exact ⟨rfl, rfl⟩
  · split
    · split
      · exact ⟨rfl, rfl⟩
      · exact ⟨rfl, rfl⟩
    · exact ⟨rfl, rfl⟩

/-- Drawing a leaf leaves the saved turtles and the depth alone on every path. -/
theorem LeafStyle.draw_stack_depth (style : LeafStyle) (env : Surroundings) (st : RunState) :
    (style.draw env st).stack = st.stack ∧ (style.draw env st).depth = st.depth := by
  unfold LeafStyle.draw
  dsimp only
  split
  · exact ⟨rfl, rfl⟩
  · split
    · exact ⟨rfl, rfl⟩
    · split
      · exact ⟨rfl, rfl⟩
      · split
        · exact ⟨rfl, rfl⟩
        · exact ⟨rfl, rfl⟩

/-- An operation that is neither a save nor a restore succeeds, and leaves the saved
    turtles and the depth alone. -/
theorem Operation.apply_of_ne {operation : Operation} (h_push : operation ≠ .push)
    (h_pop : operation ≠ .pop) (env : Surroundings) (st : RunState) :
    ∃ st', operation.apply env st = .ok st' ∧ st'.stack = st.stack ∧ st'.depth = st.depth := by
  cases operation with
  | branch style => exact ⟨_, rfl, style.draw_stack_depth st⟩
  | leaf style => exact ⟨_, rfl, style.draw_stack_depth env st⟩
  | rotate turn => exact ⟨_, rfl, rfl, rfl⟩
  | tilt turn => exact ⟨_, rfl, rfl, rfl⟩
  | push => exact absurd rfl h_push
  | pop => exact absurd rfl h_pop
  | tick pull => exact ⟨_, rfl, rfl, rfl⟩

namespace Bindings

/-! ## One symbol -/

section Symbol

variable {bindings : Bindings} {env : Surroundings} {k : Nat} {symbol : Char}
  {st st' : RunState}

theorem isPush_iff : bindings.isPush symbol = true ↔ bindings.operation? symbol = some .push := by
  rw [isPush, decide_eq_true_eq]

theorem isPop_iff : bindings.isPop symbol = true ↔ bindings.operation? symbol = some .pop := by
  rw [isPop, decide_eq_true_eq]

theorem isPop_eq_false_of_isPush (h : bindings.isPush symbol = true) :
    bindings.isPop symbol = false := by
  rw [isPop, isPush_iff.mp h]
  rfl

theorem isPush_eq_false_of_isPop (h : bindings.isPop symbol = true) :
    bindings.isPush symbol = false := by
  rw [isPush, isPop_iff.mp h]
  rfl

theorem step_of_isPush (h : bindings.isPush symbol = true) :
    bindings.step env k symbol st = .ok ({ st with index := k }.save).countSymbol := by
  rw [step, isPush_iff.mp h]
  rfl

theorem step_of_isPop_nil (h : bindings.isPop symbol = true) (h_stack : st.stack = []) :
    bindings.step env k symbol st = .error (.stackUnderflow k) := by
  rw [step, isPop_iff.mp h]
  simp only [Operation.apply, RunState.restore, h_stack]

theorem step_of_isPop_cons (h : bindings.isPop symbol = true) {saved : Turtle}
    {stack : List Turtle} (h_stack : st.stack = saved :: stack) :
    bindings.step env k symbol st = .ok
      ({ st with turtle := saved, stack, depth := st.depth - 1, index := k }).countSymbol := by
  rw [step, isPop_iff.mp h]
  simp only [Operation.apply, RunState.restore, h_stack]

theorem step_of_not_bracket (env : Surroundings) (k : Nat) (st : RunState)
    (h_push : bindings.isPush symbol = false) (h_pop : bindings.isPop symbol = false) :
    ∃ st', bindings.step env k symbol st = .ok st' ∧ st'.stack = st.stack ∧
      st'.depth = st.depth := by
  unfold step
  cases h_operation : bindings.operation? symbol with
  | none => exact ⟨st, rfl, rfl, rfl⟩
  | some operation =>
      have h_ne_push : operation ≠ .push := by
        rintro rfl
        rw [isPush_iff.mpr h_operation] at h_push
        cases h_push
      have h_ne_pop : operation ≠ .pop := by
        rintro rfl
        rw [isPop_iff.mpr h_operation] at h_pop
        cases h_pop
      obtain ⟨next, h_apply, h_stack, h_depth⟩ :=
        Operation.apply_of_ne h_ne_push h_ne_pop env { st with index := k }
      simp only [h_apply]
      exact ⟨next.countSymbol, rfl, h_stack, h_depth⟩

/-- What a symbol that succeeds does to the saved turtles and the depth. -/
theorem step_stack (h : bindings.step env k symbol st = .ok st') :
    (bindings.isPush symbol = true ∧ st'.turtle = st.turtle ∧
      st'.stack = st.turtle :: st.stack ∧ st'.depth = st.depth + 1) ∨
    (bindings.isPop symbol = true ∧ st.stack = st'.turtle :: st'.stack ∧
      st'.depth = st.depth - 1) ∨
    (bindings.isPush symbol = false ∧ bindings.isPop symbol = false ∧
      st'.stack = st.stack ∧ st'.depth = st.depth) := by
  cases h_push : bindings.isPush symbol with
  | true =>
      rw [step_of_isPush h_push] at h
      cases h
      exact .inl ⟨rfl, rfl, rfl, rfl⟩
  | false =>
      cases h_pop : bindings.isPop symbol with
      | true =>
          cases h_stack : st.stack with
          | nil =>
              rw [step_of_isPop_nil h_pop h_stack] at h
              cases h
          | cons saved stack =>
              rw [step_of_isPop_cons h_pop h_stack] at h
              cases h
              exact .inr (.inl ⟨rfl, rfl, rfl⟩)
      | false =>
          obtain ⟨next, h_step, h_stack, h_depth⟩ :=
            step_of_not_bracket env k st h_push h_pop
          rw [h_step] at h
          cases h
          exact .inr (.inr ⟨rfl, rfl, h_stack, h_depth⟩)

theorem stack_of_step_pop (h_pop : bindings.isPop symbol = true)
    (h : bindings.step env k symbol st = .ok st') :
    st.stack = st'.turtle :: st'.stack ∧ st'.depth = st.depth - 1 := by
  rcases step_stack h with ⟨h_push, -⟩ | ⟨-, h_stack, h_depth⟩ | ⟨-, h_not, -⟩
  · rw [isPop_eq_false_of_isPush h_push] at h_pop
    cases h_pop
  · exact ⟨h_stack, h_depth⟩
  · rw [h_not] at h_pop
    cases h_pop

/-- A symbol fails exactly if it restores and nothing is saved, and the error names its
    position. -/
theorem step_eq_error_iff {e : PlantError} :
    bindings.step env k symbol st = .error e
      ↔ bindings.isPop symbol = true ∧ st.stack = [] ∧ e = .stackUnderflow k := by
  constructor
  · intro h
    cases h_pop : bindings.isPop symbol with
    | true =>
        cases h_stack : st.stack with
        | nil =>
            rw [step_of_isPop_nil h_pop h_stack] at h
            cases h
            exact ⟨rfl, rfl, rfl⟩
        | cons saved stack =>
            rw [step_of_isPop_cons h_pop h_stack] at h
            cases h
    | false =>
        cases h_push : bindings.isPush symbol with
        | true =>
            rw [step_of_isPush h_push] at h
            cases h
        | false =>
            obtain ⟨next, h_step, _⟩ :=
              step_of_not_bracket env k st h_push h_pop
            rw [h_step] at h
            cases h
  · rintro ⟨h_pop, h_stack, rfl⟩
    exact step_of_isPop_nil h_pop h_stack

end Symbol

/-! ## Counting brackets -/

/-- The count before the next position goes up over a symbol that is counted. -/
theorem countP_take_succ (p : Char → Bool) {word : Word} {k : Nat} {symbol : Char}
    (h : word[k]? = some symbol) :
    (word.take (k + 1)).countP p = (word.take k).countP p + if p symbol then 1 else 0 := by
  rw [List.take_add_one, h, Option.toList_some, List.countP_append, List.countP_singleton]

/-- The number of symbols of a word that save. -/
def pushes (bindings : Bindings) (word : Word) : Nat := word.countP bindings.isPush

/-- The number of symbols of a word that restore. -/
def pops (bindings : Bindings) (word : Word) : Nat := word.countP bindings.isPop

/-- How many more symbols save than restore before a position. -/
def height (bindings : Bindings) (word : Word) (k : Nat) : Int :=
  bindings.pushes (word.take k) - bindings.pops (word.take k)

/-- The first position up to which more symbols restore than save. -/
def FirstDeficit (bindings : Bindings) (word : Word) (i : Nat) : Prop :=
  i < word.length ∧
  bindings.pushes (word.take (i + 1)) < bindings.pops (word.take (i + 1)) ∧
  ∀ j < i, bindings.pops (word.take (j + 1)) ≤ bindings.pushes (word.take (j + 1))

/-- The symbols of a word from `i` to `j`, both included. -/
def segment (word : Word) (i j : Nat) : Word := (word.take (j + 1)).drop i

/-- The symbol at `i` saves, and the one at `j` is the restore that closes it: the first
    position after `i` at which the symbols from `i` on restore as often as they save. -/
structure Closes (bindings : Bindings) (word : Word) (i j : Nat) : Prop where
  lt : i < j
  opens : ∃ symbol, word[i]? = some symbol ∧ bindings.isPush symbol = true
  closes : ∃ symbol, word[j]? = some symbol ∧ bindings.isPop symbol = true
  catches_up : bindings.pushes (segment word i j) ≤ bindings.pops (segment word i j)
  first : ∀ k < j, i < k →
    bindings.pops (segment word i k) < bindings.pushes (segment word i k)

section Height

variable (bindings : Bindings) (word : Word)

theorem pushes_cons (symbol : Char) (rest : Word) :
    bindings.pushes (symbol :: rest)
      = bindings.pushes rest + if bindings.isPush symbol then 1 else 0 :=
  List.countP_cons

theorem pops_cons (symbol : Char) (rest : Word) :
    bindings.pops (symbol :: rest)
      = bindings.pops rest + if bindings.isPop symbol then 1 else 0 :=
  List.countP_cons

theorem pushes_take_succ {k : Nat} {symbol : Char} (h : word[k]? = some symbol) :
    bindings.pushes (word.take (k + 1))
      = bindings.pushes (word.take k) + if bindings.isPush symbol then 1 else 0 :=
  countP_take_succ _ h

theorem pops_take_succ {k : Nat} {symbol : Char} (h : word[k]? = some symbol) :
    bindings.pops (word.take (k + 1))
      = bindings.pops (word.take k) + if bindings.isPop symbol then 1 else 0 :=
  countP_take_succ _ h

/-- The height over one symbol. -/
theorem height_succ {k : Nat} {symbol : Char} (h : word[k]? = some symbol) :
    bindings.height word (k + 1) = bindings.height word k
      + (if bindings.isPush symbol then 1 else 0) - (if bindings.isPop symbol then 1 else 0) := by
  rw [height, height, pushes_take_succ bindings word h, pops_take_succ bindings word h]
  push_cast
  split <;> split <;> omega

theorem height_le (k : Nat) :
    bindings.height word k ≤ k := by
  have h_pushes : bindings.pushes (word.take k) ≤ k :=
    calc bindings.pushes (word.take k) ≤ (word.take k).length := List.countP_le_length
      _ ≤ k := List.length_take_le k word
  rw [height]
  omega

theorem take_succ_eq_append_segment {i j : Nat} (h : i ≤ j) :
    word.take (j + 1) = word.take i ++ segment word i j := by
  calc word.take (j + 1)
      = (word.take (j + 1)).take i ++ (word.take (j + 1)).drop i :=
        (List.take_append_drop i _).symm
    _ = word.take i ++ segment word i j := by
        rw [List.take_take, Nat.min_eq_left (by omega), segment]

/-- The height over a segment. -/
theorem height_segment {i j : Nat} (h : i ≤ j) :
    bindings.height word (j + 1) = bindings.height word i
      + bindings.pushes (segment word i j) - bindings.pops (segment word i j) := by
  rw [height, height, take_succ_eq_append_segment word h, pushes, pushes, pops, pops,
    List.countP_append, List.countP_append, ← pushes, ← pops, ← pushes, ← pops]
  push_cast
  omega

end Height

/-! ## The stack has the height of the word -/

section Stack

variable {bindings : Bindings} {env : Surroundings} {word : Word} {st₀ st : RunState}
  {k : Nat}

/-- Before every symbol the number of saved turtles is the height of the word there, and
    the depth is one more. -/
theorem Reaches.stack_height (h_stack₀ : st₀.stack = []) (h_depth₀ : st₀.depth = initialDepth)
    (h : bindings.Reaches env word st₀ k st) :
    (st.stack.length : Int) = bindings.height word k ∧ st.depth = 1 + st.stack.length := by
  induction h with
  | start =>
      rw [h_stack₀, h_depth₀]
      exact ⟨rfl, rfl⟩
  | @step k symbol st st' _ h_symbol h_step ih =>
      obtain ⟨ih_height, ih_depth⟩ := ih
      rw [height_succ bindings word h_symbol, ← ih_height]
      -- A save makes stack, depth and height one larger, a restore one smaller.
      rcases step_stack h_step with ⟨h_push, -, h_stack, h_depth⟩ | ⟨h_pop, h_stack, h_depth⟩ |
          ⟨h_push, h_pop, h_stack, h_depth⟩
      · rw [h_push, isPop_eq_false_of_isPush h_push, h_stack, h_depth, List.length_cons,
          if_pos rfl, if_neg Bool.false_ne_true]
        omega
      · rw [isPush_eq_false_of_isPop h_pop, h_pop, h_depth, ih_depth, h_stack, List.length_cons,
          if_neg Bool.false_ne_true, if_pos rfl]
        omega
      · rw [h_push, h_pop, h_stack, h_depth, ih_depth, if_neg Bool.false_ne_true]
        omega

theorem RunsTo.stack_height {noise : Noise.Source} {scene : Scene} {world : Collision.World}
    (h : bindings.RunsTo noise word scene world k st) :
    (st.stack.length : Int) = bindings.height word k ∧ st.depth = 1 + st.stack.length :=
  Reaches.stack_height rfl rfl h

/-- A symbol opens one level at most. -/
theorem RunsTo.depth_le {noise : Noise.Source} {scene : Scene} {world : Collision.World}
    (h : bindings.RunsTo noise word scene world k st) : st.depth ≤ 1 + k := by
  obtain ⟨h_stack, h_depth⟩ := h.stack_height
  have h_height := height_le bindings word k
  omega

/-- No position that a run has passed has a deficit. -/
theorem RunsTo.height_nonneg {noise : Noise.Source} {scene : Scene} {world : Collision.World}
    (h : bindings.RunsTo noise word scene world k st) {i : Nat} (h_i : i ≤ k) :
    0 ≤ bindings.height word i := by
  obtain ⟨st', h_before⟩ := Reaches.before h h_i
  have := (Reaches.stack_height rfl rfl h_before).1
  omega

end Stack

/-! ## The outcome of a run -/

section Outcome

variable {bindings : Bindings} {noise : Noise.Source} {word : Word} {scene : Scene}
  {world : Collision.World}

theorem FirstDeficit.unique {i j : Nat} (h_i : bindings.FirstDeficit word i)
    (h_j : bindings.FirstDeficit word j) : i = j := by
  obtain ⟨-, h_deficit_i, h_first_i⟩ := h_i
  obtain ⟨-, h_deficit_j, h_first_j⟩ := h_j
  -- The later one of two would have a deficit before it.
  rcases Nat.lt_trichotomy i j with h_lt | h_eq | h_gt
  · have := h_first_j i h_lt
    omega
  · exact h_eq
  · have := h_first_i j h_gt
    omega

/-- A run stops at the first deficit. -/
theorem firstDeficit_of_step_eq_error {i : Nat} {symbol : Char} {st : RunState} {e : PlantError}
    (h : bindings.RunsTo noise word scene world i st) (h_symbol : word[i]? = some symbol)
    (h_step : bindings.step ⟨bindings.nesting word, noise⟩ i symbol st = .error e) :
    bindings.FirstDeficit word i ∧ e = .stackUnderflow i := by
  obtain ⟨h_pop, h_stack, h_e⟩ := step_eq_error_iff.mp h_step
  obtain ⟨h_i, -⟩ := List.getElem?_eq_some_iff.mp h_symbol
  refine ⟨⟨h_i, ?_, ?_⟩, h_e⟩
  · -- Nothing is saved, so the brackets before the symbol are even.
    have h_height : (0 : Int) = bindings.height word i := by
      rw [← h.stack_height.1, h_stack]
      rfl
    rw [pushes_take_succ bindings word h_symbol, pops_take_succ bindings word h_symbol,
      isPush_eq_false_of_isPop h_pop, h_pop, if_neg Bool.false_ne_true, if_pos rfl]
    rw [height] at h_height
    omega
  · intro j h_j
    have := h.height_nonneg (i := j + 1) (by omega)
    rw [height] at this
    omega

/-- A run over a word without a deficit gets to the end of the word. -/
theorem runsTo_length_of_not_firstDeficit (noise : Noise.Source) (scene : Scene)
    (world : Collision.World) (h : ∀ i, ¬bindings.FirstDeficit word i) :
    ∃ last, bindings.RunsTo noise word scene world word.length last ∧
      bindings.run noise word scene world = ⟨last, none⟩ := by
  rcases run_cases bindings noise word scene world with h_end |
      ⟨i, symbol, last, e, h_last, h_symbol, h_step, -⟩
  · exact h_end
  · exact absurd (firstDeficit_of_step_eq_error h_last h_symbol h_step).1 (h i)

/-- A run that gets to the end of its word meets no deficit. -/
theorem RunsTo.not_firstDeficit {last : RunState}
    (h : bindings.RunsTo noise word scene world word.length last) (i : Nat) :
    ¬bindings.FirstDeficit word i := by
  rintro ⟨h_i, h_deficit, -⟩
  have := h.height_nonneg (i := i + 1) (by omega)
  rw [height] at this
  omega

/-- A run over a word with a deficit fails at the first one. -/
theorem result_run_of_firstDeficit {i : Nat} (h : bindings.FirstDeficit word i) :
    (bindings.run noise word scene world).result = .error (.stackUnderflow i) := by
  rcases run_cases bindings noise word scene world with ⟨last, h_last, -⟩ |
      ⟨j, symbol, last, e, h_last, h_symbol, h_step, h_run⟩
  · exact absurd h (h_last.not_firstDeficit i)
  · obtain ⟨h_deficit, h_e⟩ := firstDeficit_of_step_eq_error h_last h_symbol h_step
    rw [h_run, h_e, h_deficit.unique h]
    rfl

/-- A run fails in no other way than at the first deficit. -/
theorem result_run_eq_error_iff_firstDeficit (bindings : Bindings) (noise : Noise.Source)
    (word : Word) (scene : Scene) (world : Collision.World) (e : PlantError) :
    (bindings.run noise word scene world).result = .error e ↔
      ∃ i, e = .stackUnderflow i ∧ bindings.FirstDeficit word i := by
  constructor
  · intro h
    rcases run_cases bindings noise word scene world with ⟨last, -, h_run⟩ |
        ⟨i, symbol, last, e', h_last, h_symbol, h_step, h_run⟩
    · rw [h_run] at h
      cases h
    · rw [h_run] at h
      cases h
      obtain ⟨h_deficit, h_e⟩ := firstDeficit_of_step_eq_error h_last h_symbol h_step
      exact ⟨i, h_e, h_deficit⟩
  · rintro ⟨i, rfl, h_deficit⟩
    exact result_run_of_firstDeficit h_deficit

/-- **The brackets fix the outcome.**  A run fails exactly at the first position up to which
    more symbols restore than save, and fails in no other way; else it ends with as many
    turtles saved as the word has brackets left open, one level deeper than that.  At every
    symbol the depth is one more than the number of saved turtles, so a restore never takes
    it below zero, and it never exceeds the position by more than one.  Neighbour counts have
    their room (`PointTree.HasRoom`). -/
theorem result_run_of_brackets (bindings : Bindings) (noise : Noise.Source) (word : Word)
    (scene : Scene) (world : Collision.World) :
    (∀ i, (bindings.run noise word scene world).result = .error (.stackUnderflow i)
      ↔ bindings.FirstDeficit word i) ∧
    (∀ e, (bindings.run noise word scene world).result = .error e →
      ∃ i, e = .stackUnderflow i) ∧
    ((∀ i, ¬bindings.FirstDeficit word i) →
      ∃ summary, (bindings.run noise word scene world).result = .ok summary ∧
        (summary.stackRemaining : Int) = bindings.pushes word - bindings.pops word ∧
        (summary.finalDepth : Int) = 1 + bindings.pushes word - bindings.pops word) ∧
    (∀ k st, bindings.RunsTo noise word scene world k st →
      st.depth = 1 + st.stack.length ∧ st.depth ≤ 1 + k) := by
  have h_depth : ∀ k st, bindings.RunsTo noise word scene world k st →
      st.depth = 1 + st.stack.length ∧ st.depth ≤ 1 + k :=
    fun k st h => ⟨h.stack_height.2, h.depth_le⟩
  -- There is a first deficit, at which the run stops, or the run gets to the end.
  by_cases h_deficit : ∃ i, bindings.FirstDeficit word i
  · obtain ⟨i, h_deficit⟩ := h_deficit
    have h_result : (bindings.run noise word scene world).result
        = .error (.stackUnderflow i) := result_run_of_firstDeficit h_deficit
    refine ⟨fun j => ⟨?_, ?_⟩, ?_, fun h => absurd h_deficit (h i), h_depth⟩
    · intro h
      rw [h_result] at h
      cases h
      exact h_deficit
    · intro h
      rw [h_result, h.unique h_deficit]
    · intro e h
      rw [h_result] at h
      cases h
      exact ⟨i, rfl⟩
  · have h_none : ∀ i, ¬bindings.FirstDeficit word i := not_exists.mp h_deficit
    obtain ⟨last, h_last, h_run⟩ :=
      runsTo_length_of_not_firstDeficit noise scene world h_none
    have h_result : (bindings.run noise word scene world).result = .ok last.finalSummary := by
      rw [h_run]
      rfl
    obtain ⟨h_stack, h_last_depth⟩ := h_last.stack_height
    rw [height, List.take_length] at h_stack
    refine ⟨fun i => ⟨?_, fun h => absurd h (h_none i)⟩, ?_,
      fun _ => ⟨last.finalSummary, h_result, h_stack, ?_⟩, h_depth⟩
    · intro h
      rw [h_result] at h
      cases h
    · intro e h
      rw [h_result] at h
      cases h
    · show (last.depth : Int) = _
      omega

end Outcome

/-! ## A group between brackets -/

section Group

variable {bindings : Bindings} {noise : Noise.Source} {word : Word} {scene : Scene}
  {world : Collision.World} {i j k : Nat} {st st' : RunState}

theorem Closes.height_lt (h : bindings.Closes word i j) (h_lt : i < k) (h_le : k ≤ j) :
    bindings.height word i < bindings.height word k := by
  obtain ⟨m, rfl⟩ : ∃ m, k = m + 1 := ⟨k - 1, by omega⟩
  rcases Nat.eq_or_lt_of_le (Nat.le_of_lt_succ h_lt) with h_first | h_after
  · subst h_first
    obtain ⟨symbol, h_symbol, h_push⟩ := h.opens
    rw [height_succ bindings word h_symbol, h_push, isPop_eq_false_of_isPush h_push, if_pos rfl,
      if_neg Bool.false_ne_true]
    omega
  · have := h.first m (by omega) h_after
    rw [height_segment bindings word (Nat.le_of_lt h_after)]
    omega

theorem Closes.height_le (h : bindings.Closes word i j) :
    bindings.height word (j + 1) ≤ bindings.height word i := by
  have := h.catches_up
  rw [height_segment bindings word (Nat.le_of_lt h.lt)]
  omega

/-- Inside a group the turtle saved at its start, and all that was saved before it, lie
    untouched under what the group has saved since. -/
theorem RunsTo.stack_of_group (h_closes : bindings.Closes word i j)
    (h_open : bindings.RunsTo noise word scene world i st)
    (h : bindings.RunsTo noise word scene world k st') (h_lt : i < k) (h_le : k ≤ j) :
    ∃ inner, st'.stack = inner ++ st.turtle :: st.stack := by
  induction h with
  | start => omega
  | @step k symbol mid st' h_mid h_symbol h_step ih =>
      have h_st' : bindings.RunsTo noise word scene world (k + 1) st' :=
        Reaches.step h_mid h_symbol h_step
      rcases Nat.eq_or_lt_of_le (Nat.le_of_lt_succ h_lt) with h_first | h_after
      · -- The symbol that opens the group.
        subst h_first
        obtain rfl := Reaches.unique h_open h_mid
        obtain ⟨opening, h_opening, h_push⟩ := h_closes.opens
        rw [h_symbol] at h_opening
        cases h_opening
        rw [step_of_isPush h_push] at h_step
        cases h_step
        exact ⟨[], rfl⟩
      · obtain ⟨inner, h_inner⟩ := ih h_after (by omega)
        rcases step_stack h_step with ⟨-, -, h_stack, -⟩ | ⟨-, h_stack, -⟩ | ⟨-, -, h_stack, -⟩
        · exact ⟨mid.turtle :: inner, by rw [h_stack, h_inner, List.cons_append]⟩
        · cases inner with
          | nil =>
              -- A restore of the turtle saved at the start would close the group early.
              rw [h_inner, List.nil_append] at h_stack
              obtain ⟨-, h_rest⟩ := List.cons.inj h_stack
              have h_height := h_closes.height_lt h_lt h_le
              rw [← h_st'.stack_height.1, ← h_open.stack_height.1, h_rest] at h_height
              omega
          | cons saved inner =>
              rw [h_inner, List.cons_append] at h_stack
              exact ⟨inner, (List.cons.inj h_stack).2.symm⟩
        · exact ⟨inner, by rw [h_stack, h_inner]⟩

/-- **A group leaves no trace on the turtle.**  If a run gets past the restore at `j` that
    closes the save at `i`, turtle, saved turtles and depth after it are those before the
    save, whatever ran in between. -/
theorem runsTo_of_closes (bindings : Bindings) (noise : Noise.Source) (word : Word)
    (scene : Scene) (world : Collision.World) (i j : Nat) (st' : RunState)
    (h_closes : bindings.Closes word i j)
    (h : bindings.RunsTo noise word scene world (j + 1) st') :
    ∃ st, bindings.RunsTo noise word scene world i st ∧
      st'.turtle = st.turtle ∧ st'.stack = st.stack ∧ st'.depth = st.depth := by
  have h_lt := h_closes.lt
  obtain ⟨st, h_open⟩ := Reaches.before h (show i ≤ j + 1 by omega)
  refine ⟨st, h_open, ?_⟩
  obtain ⟨h_stack_open, h_depth_open⟩ := RunsTo.stack_height h_open
  obtain ⟨h_stack_last, h_depth_last⟩ := h.stack_height
  have h_height := h_closes.height_le
  cases h with
  | @step _ symbol mid _ h_mid h_symbol h_step =>
      obtain ⟨inner, h_inner⟩ :=
        RunsTo.stack_of_group h_closes h_open h_mid h_lt (Nat.le_refl j)
      obtain ⟨closing, h_closing, h_pop⟩ := h_closes.closes
      rw [h_symbol] at h_closing
      cases h_closing
      obtain ⟨h_stack, -⟩ := stack_of_step_pop h_pop h_step
      -- What the group saved has been restored: `inner` is empty.
      have h_length := congrArg List.length (h_inner.symm.trans h_stack)
      rw [List.length_append, List.length_cons, List.length_cons] at h_length
      obtain rfl : inner = [] := List.length_eq_zero_iff.mp (by omega)
      rw [h_inner, List.nil_append] at h_stack
      obtain ⟨h_turtle, h_rest⟩ := List.cons.inj h_stack
      exact ⟨h_turtle.symm, h_rest.symm, by rw [h_depth_last, h_depth_open, h_rest]⟩

/-- The operations of the word `D[D[+D]+]D`. -/
def branchingBindings : Bindings :=
  (bracketed.bind 'D' (.branch {})).bind '+' (.rotate Operation.defaultRotate)

/-- The outer group of `D[D[+D]+]D`, with a nested group, branches and turns in it. -/
theorem runsTo_of_closes_nested :
    branchingBindings.Closes "D[D[+D]+]D".toList 1 8 ∧
      ∃ st st', branchingBindings.RunsTo (.ofSeed 7) "D[D[+D]+]D".toList {} .empty 1 st ∧
        branchingBindings.RunsTo (.ofSeed 7) "D[D[+D]+]D".toList {} .empty 9 st' ∧
        st'.turtle = st.turtle ∧ st'.stack = st.stack ∧ st'.depth = st.depth := by
  have h_closes : branchingBindings.Closes "D[D[+D]+]D".toList 1 8 :=
    ⟨by decide, ⟨'[', by decide, by decide⟩, ⟨']', by decide, by decide⟩, by decide, by decide⟩
  have h_prefixes : ∀ i < 10, ¬branchingBindings.pushes ("D[D[+D]+]D".toList.take (i + 1))
      < branchingBindings.pops ("D[D[+D]+]D".toList.take (i + 1)) := by decide
  have h_none : ∀ i, ¬branchingBindings.FirstDeficit "D[D[+D]+]D".toList i :=
    fun i h => h_prefixes i h.1 h.2.1
  obtain ⟨last, h_last, -⟩ := runsTo_length_of_not_firstDeficit (.ofSeed 7) {} .empty h_none
  obtain ⟨st', h_past⟩ := Reaches.before h_last (show 9 ≤ 10 by decide)
  obtain ⟨st, h_open, h_same⟩ :=
    runsTo_of_closes branchingBindings (.ofSeed 7) "D[D[+D]+]D".toList {} .empty 1 8 st' h_closes
      h_past
  exact ⟨h_closes, st, st', h_open, h_past, h_same⟩

end Group

end Bindings

end Verdure
