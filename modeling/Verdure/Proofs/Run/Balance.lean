/-
  Verdure.Proofs.Run.Balance

  Balanced words, from the grammar to the run.

  A word is balanced if no initial part of it restores more often than it saves and the
  whole of it restores as often.  `climb` follows the height of a word from any height to
  start from, so that the words between two brackets can be replaced by other balanced
  words without a change to what comes after.  Every pass of a grammar does just that, and
  a run over a balanced word ends where it began: nothing saved, at the depth of the trunk.
-/
import Verdure.Canopy
import Verdure.Proofs.Grammar.Derivation
import Verdure.Proofs.Run.Brackets

namespace Verdure.Bindings

/-- No initial part of the word restores more often than it saves, and the whole word
    restores as often as it saves. -/
structure Balanced (bindings : Bindings) (word : Word) : Prop where
  prefixes : ∀ k ≤ word.length, bindings.pops (word.take k) ≤ bindings.pushes (word.take k)
  totals : bindings.pushes word = bindings.pops word

instance (bindings : Bindings) (word : Word) : Decidable (bindings.Balanced word) :=
  decidable_of_iff
    ((∀ k ≤ word.length, bindings.pops (word.take k) ≤ bindings.pushes (word.take k)) ∧
      bindings.pushes word = bindings.pops word)
    ⟨fun h => ⟨h.1, h.2⟩, fun h => ⟨h.prefixes, h.totals⟩⟩

/-! ## Climbing -/

/-- The height after a word that is entered at a height, if no symbol of it restores at
    height zero. -/
def climb (bindings : Bindings) : Nat → Word → Option Nat
  | height, [] => some height
  | height, symbol :: rest =>
      if bindings.isPush symbol then climb bindings (height + 1) rest
      else if bindings.isPop symbol then
        if height = 0 then none else climb bindings (height - 1) rest
      else climb bindings height rest

section Climb

variable {bindings : Bindings} {word : Word}

theorem climb_append (height : Nat) (u v : Word) :
    bindings.climb height (u ++ v)
      = (bindings.climb height u).bind fun height => bindings.climb height v := by
  induction u generalizing height with
  | nil => rfl
  | cons symbol rest ih =>
      rw [List.cons_append, climb, climb]
      split
      · exact ih (height + 1)
      · split
        · split
          · rfl
          · exact ih (height - 1)
        · exact ih height

/-- A climb succeeds if the height to start from makes up for every deficit on the way. -/
theorem climb_eq_some_iff (height last : Nat) (word : Word) :
    bindings.climb height word = some last ↔
      (∀ k ≤ word.length,
        bindings.pops (word.take k) ≤ height + bindings.pushes (word.take k)) ∧
      height + bindings.pushes word = last + bindings.pops word := by
  induction word generalizing height with
  | nil => simp [climb, pushes, pops]
  | cons symbol rest ih =>
      -- The empty initial part has no deficit, and every other one starts with the symbol.
      have h_prefixes : (∀ k ≤ (symbol :: rest).length, bindings.pops ((symbol :: rest).take k)
            ≤ height + bindings.pushes ((symbol :: rest).take k)) ↔
          ∀ k ≤ rest.length, bindings.pops (symbol :: rest.take k)
            ≤ height + bindings.pushes (symbol :: rest.take k) := by
        refine ⟨fun h k h_k => h (k + 1) (Nat.succ_le_succ h_k), fun h k h_k => ?_⟩
        cases k with
        | zero => exact Nat.zero_le _
        | succ k => exact h k (Nat.le_of_succ_le_succ h_k)
      rw [h_prefixes, climb]
      simp only [pushes_cons bindings, pops_cons bindings]
      cases h_push : bindings.isPush symbol with
      | true =>
          rw [isPop_eq_false_of_isPush h_push, if_pos rfl, ih]
          simp only [if_true, Bool.false_eq_true, if_false]
          grind
      | false =>
          cases h_pop : bindings.isPop symbol with
          | true =>
              simp only [if_true, Bool.false_eq_true, if_false]
              split
              next h_zero =>
                -- The symbol alone is a deficit.
                refine iff_of_false (by simp) ?_
                rintro ⟨h, -⟩
                have h_first := h 0 (Nat.zero_le _)
                simp [pushes, pops, h_zero] at h_first
              next h_pos =>
                rw [ih]
                grind
          | false =>
              simp only [Bool.false_eq_true, if_false, Nat.add_zero]
              exact ih height

theorem balanced_iff_climb : bindings.Balanced word ↔ bindings.climb 0 word = some 0 := by
  rw [climb_eq_some_iff]
  simp only [Nat.zero_add]
  exact ⟨fun h => ⟨h.prefixes, h.totals⟩, fun h => ⟨h.1, h.2⟩⟩

/-- From every height, a balanced word climbs back to it. -/
theorem Balanced.climb_eq (h : bindings.Balanced word) (height : Nat) :
    bindings.climb height word = some height := by
  rw [climb_eq_some_iff]
  refine ⟨fun k h_k => ?_, by rw [h.totals]⟩
  have := h.prefixes k h_k
  omega

end Climb

/-! ## Balanced grammars -/

/-- The start word and all replacements of the grammar are balanced, and no bracket has a
    production. -/
structure Balances (bindings : Bindings) (g : Grammar) : Prop where
  start : bindings.Balanced g.start
  replacements : ∀ symbol p, g.Registers symbol p → bindings.Balanced p.replacement
  brackets : ∀ symbol p, g.Registers symbol p →
    bindings.isPush symbol = false ∧ bindings.isPop symbol = false

section Grammar

variable {bindings : Bindings} {g : Grammar}

/-- A symbol and what it may become climb alike. -/
theorem Balances.climb_replaced (h : bindings.Balances g) {symbol : Char} {replaced : Word}
    (h_replaces : g.Replaces symbol replaced) (height : Nat) :
    bindings.climb height replaced = bindings.climb height [symbol] := by
  rcases h_replaces with ⟨-, rfl⟩ | ⟨p, h_registers, rfl⟩
  · rfl
  · obtain ⟨h_push, h_pop⟩ := h.brackets symbol p h_registers
    rw [(h.replacements symbol p h_registers).climb_eq]
    simp [climb, h_push, h_pop]

theorem Balances.climb_rewritten (h : bindings.Balances g) {word next : Word}
    (h_rewrites : g.Rewrites word next) (height : Nat) :
    bindings.climb height next = bindings.climb height word := by
  induction h_rewrites generalizing height with
  | nil => rfl
  | @cons symbol rest replaced next h_replaces _ ih =>
      have h_cons : symbol :: rest = [symbol] ++ rest := rfl
      rw [h_cons, climb_append, climb_append, h.climb_replaced h_replaces]
      simp only [ih]

/-- Whatever is chosen, every derived word is balanced. -/
theorem Balances.balanced_of_derives (h : bindings.Balances g) {passes : Nat} {word : Word}
    (h_derives : g.Derives passes g.start word) : bindings.Balanced word := by
  refine h_derives.keeps ?_ h.start
  intro word next h_word h_rewrites
  rw [balanced_iff_climb, h.climb_rewritten h_rewrites, ← balanced_iff_climb]
  exact h_word

end Grammar

/-! ## Runs over balanced words -/

section Runs

variable {bindings : Bindings} {word : Word}

theorem Balanced.not_firstDeficit (h : bindings.Balanced word) (i : Nat) :
    ¬bindings.FirstDeficit word i := by
  rintro ⟨h_i, h_deficit, -⟩
  have := h.prefixes (i + 1) h_i
  omega

/-- A run over a balanced word ends with nothing saved, at the depth it started at. -/
theorem Balanced.result_run (h : bindings.Balanced word) (noise : Noise.Source) (scene : Scene)
    (world : Collision.World) :
    ∃ summary, (bindings.run noise word scene world).result = .ok summary ∧
      summary.stackRemaining = 0 ∧ summary.finalDepth = 1 := by
  obtain ⟨last, h_last, h_run⟩ :=
    runsTo_length_of_not_firstDeficit noise scene world h.not_firstDeficit
  obtain ⟨h_stack, h_depth⟩ := h_last.stack_height
  rw [height, List.take_length, h.totals, sub_self, Nat.cast_eq_zero] at h_stack
  rw [h_run]
  exact ⟨last.finalSummary, rfl, h_stack, by rw [RunState.finalSummary, h_depth, h_stack]⟩

end Runs

end Verdure.Bindings

namespace Verdure

/-- A plant whose grammar is balanced is constructed without an error. -/
theorem Plant.construct_of_balances (plant : Plant) (h_built : plant.grammar.Built)
    (h : plant.bindings.Balances plant.grammar) (passes : Nat) (scene : Scene) :
    ∃ c, (plant.construct passes scene).2 = .ok c ∧ plant.derive passes = .ok c.derived ∧
      (plant.bindings.run plant.noise c.derived { scene with collisionCount := 0 } .empty).result
        = .ok c.summary ∧
      plant.bindings.Balanced c.derived ∧
      c.summary.stackRemaining = 0 ∧ c.summary.finalDepth = 1 := by
  obtain ⟨word, h_word⟩ := h_built.wellFormed.exists_derive passes plant.noise
  have h_balanced := h.balanced_of_derives (Grammar.derives_of_derive h_word)
  obtain ⟨summary, h_result, h_stack, h_depth⟩ :=
    h_balanced.result_run plant.noise { scene with collisionCount := 0 } .empty
  refine ⟨⟨word, summary⟩, ?_, h_word, h_result, h_balanced, h_stack, h_depth⟩
  unfold construct derive
  simp only [h_word, h_result]
  rfl

/-! ## The canopy tree -/

namespace Canopy

theorem built_grammar : grammar.Built := by
  have h_fork := Grammar.Built.addWeighted
    (Grammar.Built.ofStart "[F][/-F][*+F][++*F][--*F]".toList)
    (p := ⟨'F', "BS++[/BFS][*BFS]++[/BFS][*BbFS]".toList, 0.5⟩) (if_pos (by decide))
  have h_end := Grammar.Built.addWeighted h_fork
    (p := ⟨'F', "BS++[/BFS][*BFS]".toList, 0.3⟩) (if_pos (by decide))
  exact Grammar.Built.addWeighted h_end (p := ⟨'B', "SD[l]SD".toList, 0.2⟩) (if_pos (by decide))

theorem registers_grammar {symbol : Char} {p : Production Float32}
    (h : grammar.Registers symbol p) :
    (symbol = 'F' ∧ p.replacement = "BS++[/BFS][*BFS]++[/BFS][*BbFS]".toList) ∨
    (symbol = 'F' ∧ p.replacement = "BS++[/BFS][*BFS]".toList) ∨
    (symbol = 'B' ∧ p.replacement = "SD[l]SD".toList) := by
  unfold grammar at h
  rw [Grammar.registers_register, Grammar.registers_register, Grammar.registers_register] at h
  rcases h with ⟨rfl, rfl⟩ | ⟨rfl, rfl⟩ | ⟨rfl, rfl⟩ | h
  · exact .inr (.inr ⟨rfl, rfl⟩)
  · exact .inr (.inl ⟨rfl, rfl⟩)
  · exact .inl ⟨rfl, rfl⟩
  · exact absurd h (Grammar.not_registers_ofStart _ _ _)

theorem balances_grammar : bindings.Balances grammar := by
  refine ⟨by decide +kernel, ?_, ?_⟩
  · intro symbol p h
    rcases registers_grammar h with ⟨-, h_p⟩ | ⟨-, h_p⟩ | ⟨-, h_p⟩ <;> rw [h_p] <;>
      decide +kernel
  · intro symbol p h
    rcases registers_grammar h with ⟨rfl, -⟩ | ⟨rfl, -⟩ | ⟨rfl, -⟩ <;> decide +kernel

end Canopy

/-- **Brackets stay balanced.**  If the start word and all replacements of a grammar are
    balanced and no bracket has a production, then whatever the passes choose, a derived
    word is balanced, and a run over it ends without an error, with nothing saved, at the
    depth of the trunk, in every scene.  What noise derives is one such choice.  So a plant
    with such a grammar is always constructed, from the word that it derives and with the
    summary of the run over that word, the canopy tree among them. -/
theorem balanced_derivations :
    (∀ (bindings : Bindings) (g : Grammar), bindings.Balances g →
      ∀ (passes : Nat) (word : Word), g.Derives passes g.start word →
        bindings.Balanced word ∧
        ∀ (noise : Noise.Source) (scene : Scene) (world : Collision.World),
          ∃ summary, (bindings.run noise word scene world).result = .ok summary ∧
            summary.stackRemaining = 0 ∧ summary.finalDepth = 1) ∧
    (∀ (g : Grammar) (passes : Nat) (noise : Noise.Source) (word : Word),
      g.derive passes noise = .ok word → g.Derives passes g.start word) ∧
    (∀ (plant : Plant), plant.grammar.Built → plant.bindings.Balances plant.grammar →
      ∀ (passes : Nat) (scene : Scene), ∃ c, (plant.construct passes scene).2 = .ok c ∧
        plant.derive passes = .ok c.derived ∧
        (plant.bindings.run plant.noise c.derived { scene with collisionCount := 0 } .empty).result
          = .ok c.summary ∧
        plant.bindings.Balanced c.derived ∧
        c.summary.stackRemaining = 0 ∧ c.summary.finalDepth = 1) ∧
    (∀ (seed : UInt64) (passes : Nat) (scene : Scene),
      ∃ c, ((Canopy.plant seed).construct passes scene).2 = .ok c ∧
        (Canopy.plant seed).derive passes = .ok c.derived ∧
        (Canopy.bindings.run (.ofSeed seed) c.derived { scene with collisionCount := 0 }
          .empty).result = .ok c.summary ∧
        Canopy.bindings.Balanced c.derived ∧
        c.summary.stackRemaining = 0 ∧ c.summary.finalDepth = 1) := by
  refine ⟨?_, fun g passes noise word h => Grammar.derives_of_derive h,
    fun plant h_built h => Plant.construct_of_balances plant h_built h, ?_⟩
  · intro bindings g h passes word h_derives
    have h_balanced := h.balanced_of_derives h_derives
    exact ⟨h_balanced, h_balanced.result_run⟩
  · intro seed passes scene
    exact Plant.construct_of_balances (Canopy.plant seed) Canopy.built_grammar
      Canopy.balances_grammar passes scene

/-- Two choices for `A`, one that opens a branch in front and one that ends. -/
def forkingGrammar : Grammar :=
  ((Grammar.ofStart "A[A]".toList).add 'A' "[A]A".toList).add 'A' "B[+]".toList

/-- `A[A]` with a different choice for each `A`, and a plant that makes three passes. -/
theorem balanced_derivations_forking :
    Bindings.bracketed.Balances forkingGrammar ∧ forkingGrammar.Built ∧
      forkingGrammar.Derives 1 forkingGrammar.start "[A]A[B[+]]".toList ∧
      Bindings.bracketed.Balanced "[A]A[B[+]]".toList ∧
      (∃ summary, (Bindings.bracketed.run (.ofSeed 7) "[A]A[B[+]]".toList {} .empty).result
        = .ok summary ∧ summary.stackRemaining = 0 ∧ summary.finalDepth = 1) ∧
      ∃ c, (Plant.construct ⟨forkingGrammar, .bracketed, .ofSeed 7⟩ 3 {}).2 = .ok c ∧
        forkingGrammar.derive 3 (.ofSeed 7) = .ok c.derived ∧
        (Bindings.bracketed.run (.ofSeed 7) c.derived {} .empty).result = .ok c.summary ∧
        Bindings.bracketed.Balanced c.derived ∧
        c.summary.stackRemaining = 0 ∧ c.summary.finalDepth = 1 := by
  have h_registers : ∀ symbol p, forkingGrammar.Registers symbol p ↔
      ('A' = symbol ∧ p = ⟨'A', "B[+]".toList, 1.0⟩) ∨
      ('A' = symbol ∧ p = ⟨'A', "[A]A".toList, 1.0⟩) := by
    intro symbol p
    unfold forkingGrammar Grammar.add
    rw [Grammar.registers_register, Grammar.registers_register,
      or_iff_left (Grammar.not_registers_ofStart _ _ _)]
  have h_balances : Bindings.bracketed.Balances forkingGrammar := by
    refine ⟨by decide, ?_, ?_⟩
    · intro symbol p h
      rcases (h_registers symbol p).mp h with ⟨-, rfl⟩ | ⟨-, rfl⟩ <;> decide
    · intro symbol p h
      rcases (h_registers symbol p).mp h with ⟨rfl, -⟩ | ⟨rfl, -⟩ <;> decide
  have h_built : forkingGrammar.Built := .add 'A' _ (.add 'A' _ (.ofStart _))
  have h_other : ∀ symbol, symbol ≠ 'A' → forkingGrammar.Replaces symbol [symbol] := by
    intro symbol h_symbol
    refine .inl ⟨?_, rfl⟩
    unfold forkingGrammar Grammar.add
    rw [Grammar.set?_register, if_neg h_symbol.symm, Grammar.set?_register,
      if_neg h_symbol.symm, Grammar.set?_ofStart]
  have h_open : forkingGrammar.Replaces 'A' "[A]A".toList :=
    .inr ⟨_, (h_registers 'A' _).mpr (.inr ⟨rfl, rfl⟩), rfl⟩
  have h_end : forkingGrammar.Replaces 'A' "B[+]".toList :=
    .inr ⟨_, (h_registers 'A' _).mpr (.inl ⟨rfl, rfl⟩), rfl⟩
  have h_derives : forkingGrammar.Derives 1 forkingGrammar.start "[A]A[B[+]]".toList :=
    .pass (.cons h_open (.cons (h_other '[' (by decide)) (.cons h_end
      (.cons (h_other ']' (by decide)) .nil)))) (.refl _)
  obtain ⟨h_balanced, h_run⟩ :=
    balanced_derivations.1 .bracketed forkingGrammar h_balances 1 _ h_derives
  exact ⟨h_balances, h_built, h_derives, h_balanced, h_run (.ofSeed 7) {} .empty,
    balanced_derivations.2.2.1 ⟨forkingGrammar, .bracketed, .ofSeed 7⟩ h_built h_balances 3 {}⟩

end Verdure
