/-
  Verdure.Proofs.Run.Reaches

  The states a run passes through.  `Reaches` says in which state a run gets to each
  position of its word; an invariant of runs is an induction over it.  `runFrom_cases`
  says that a run either gets to the end of its word or stops at a failing symbol, in the
  state in which it got there.
-/
import Verdure.Run.Interpret

namespace Verdure.Bindings

/-- A run over a word from the state `st₀` gets to the symbol at a position in a state. -/
inductive Reaches (bindings : Bindings) (env : Surroundings) (word : Word) (st₀ : RunState) :
    Nat → RunState → Prop
  | start : Reaches bindings env word st₀ 0 st₀
  | step {k : Nat} {symbol : Char} {st st' : RunState} :
      Reaches bindings env word st₀ k st → word[k]? = some symbol →
      bindings.step env k symbol st = .ok st' → Reaches bindings env word st₀ (k + 1) st'

/-- The run over a word in a scene and a world gets to the symbol at a position in a
    state. -/
def RunsTo (bindings : Bindings) (noise : Noise.Source) (word : Word) (scene : Scene)
    (world : Collision.World) (k : Nat) (st : RunState) : Prop :=
  bindings.Reaches ⟨bindings.nesting word, noise⟩ word { scene, world } k st

variable {bindings : Bindings} {env : Surroundings} {word : Word} {st₀ st st' : RunState}
  {k : Nat}

namespace Reaches

/-- A run is in one state at a position. -/
theorem unique (h : bindings.Reaches env word st₀ k st)
    (h' : bindings.Reaches env word st₀ k st') : st = st' := by
  induction h generalizing st' with
  | start =>
      cases h'
      rfl
  | step _ h_symbol h_step ih =>
      cases h' with
      | step h_before h_symbol' h_step' =>
          have h_same := ih h_before
          subst h_same
          rw [h_symbol] at h_symbol'
          cases h_symbol'
          rw [h_step] at h_step'
          cases h_step'
          rfl

/-- A run that gets to a position has been at every position before it. -/
theorem before (h : bindings.Reaches env word st₀ k st) {i : Nat} (h_i : i ≤ k) :
    ∃ st', bindings.Reaches env word st₀ i st' := by
  induction h with
  | start =>
      obtain rfl : i = 0 := by omega
      exact ⟨st₀, .start⟩
  | @step k symbol st st' h_before h_symbol h_step ih =>
      by_cases h_last : i = k + 1
      · subst h_last
        exact ⟨st', h_before.step h_symbol h_step⟩
      · exact ih (by omega)

theorem le_length (h : bindings.Reaches env word st₀ k st) : k ≤ word.length := by
  cases h with
  | start => exact Nat.zero_le _
  | step _ h_symbol _ =>
      obtain ⟨h_k, _⟩ := List.getElem?_eq_some_iff.mp h_symbol
      exact h_k

/-- From a position on, a run goes on to the end of its word or stops at a failing
    symbol. -/
theorem runFrom_cases (h : bindings.Reaches env word st₀ k st) :
    (∃ last, bindings.Reaches env word st₀ word.length last ∧
      bindings.runFrom env k (word.drop k) st = ⟨last, none⟩) ∨
    (∃ i symbol last e, bindings.Reaches env word st₀ i last ∧ word[i]? = some symbol ∧
      bindings.step env i symbol last = .error e ∧
      bindings.runFrom env k (word.drop k) st = ⟨last, some e⟩) := by
  -- Induction on the number of symbols still to come.
  induction h_rest : word.length - k generalizing k st with
  | zero =>
      obtain rfl : k = word.length := by
        have := h.le_length
        omega
      left
      exact ⟨st, h, by rw [List.drop_length, runFrom]⟩
  | succ n ih =>
      have h_k : k < word.length := by omega
      rw [List.drop_eq_getElem_cons h_k, runFrom]
      cases h_step : bindings.step env k word[k] st with
      | ok next =>
          exact ih (h.step (List.getElem?_eq_getElem h_k) h_step) (by omega)
      | error e =>
          right
          exact ⟨k, word[k], st, e, h, List.getElem?_eq_getElem h_k, h_step, rfl⟩

/-- A run that gets to a position goes on from there. -/
theorem runFrom_eq (h : bindings.Reaches env word st₀ k st) :
    bindings.runFrom env 0 word st₀ = bindings.runFrom env k (word.drop k) st := by
  induction h with
  | start => rw [List.drop_zero]
  | step _ h_symbol h_step ih =>
      obtain ⟨h_k, rfl⟩ := List.getElem?_eq_some_iff.mp h_symbol
      rw [ih, List.drop_eq_getElem_cons h_k, runFrom, h_step]

end Reaches

/-- A run gets to the end of its word, or it stops at a failing symbol. -/
theorem run_cases (bindings : Bindings) (noise : Noise.Source) (word : Word) (scene : Scene)
    (world : Collision.World) :
    (∃ last, bindings.RunsTo noise word scene world word.length last ∧
      bindings.run noise word scene world = ⟨last, none⟩) ∨
    (∃ i symbol last e, bindings.RunsTo noise word scene world i last ∧
      word[i]? = some symbol ∧
      bindings.step ⟨bindings.nesting word, noise⟩ i symbol last = .error e ∧
      bindings.run noise word scene world = ⟨last, some e⟩) :=
  Reaches.runFrom_cases .start

/-- A run that gets to the end of its word ends there. -/
theorem RunsTo.run_eq_of_length {noise : Noise.Source} {scene : Scene} {world : Collision.World}
    (h : bindings.RunsTo noise word scene world word.length st) :
    bindings.run noise word scene world = ⟨st, none⟩ := by
  rw [run, Reaches.runFrom_eq h, List.drop_length, runFrom]

/-- A run that gets to a failing symbol stops there. -/
theorem RunsTo.run_eq_of_error {noise : Noise.Source} {scene : Scene} {world : Collision.World}
    {symbol : Char} {e : PlantError} (h : bindings.RunsTo noise word scene world k st)
    (h_symbol : word[k]? = some symbol)
    (h_step : bindings.step ⟨bindings.nesting word, noise⟩ k symbol st = .error e) :
    bindings.run noise word scene world = ⟨st, some e⟩ := by
  obtain ⟨h_k, rfl⟩ := List.getElem?_eq_some_iff.mp h_symbol
  rw [run, Reaches.runFrom_eq h, List.drop_eq_getElem_cons h_k, runFrom, h_step]

/-- A run that gives counts got to the end of its word, and counted up to there. -/
theorem runsTo_of_result_run {noise : Noise.Source} {scene : Scene} {world : Collision.World}
    {summary : RunSummary} (h : (bindings.run noise word scene world).result = .ok summary) :
    ∃ last, bindings.RunsTo noise word scene world word.length last ∧
      summary = last.finalSummary := by
  rcases run_cases bindings noise word scene world with ⟨last, h_last, h_run⟩ |
      ⟨i, symbol, last, e, -, -, -, h_run⟩
  · rw [h_run] at h
    exact ⟨last, h_last, (Except.ok.inj h).symm⟩
  · rw [h_run] at h
    cases h

end Verdure.Bindings
