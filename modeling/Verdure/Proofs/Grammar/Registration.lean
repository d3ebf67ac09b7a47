/-
  Verdure.Proofs.Grammar.Registration

  Grammars and what is registered in them.

  `Registers` says which productions a grammar has for a symbol; a registration adds its
  production and nothing else.  `Built` are the grammars that registrations lead to, and
  every set of such a grammar holds a production and is well formed.
-/
import Verdure.Grammar.Basic
import Verdure.Proofs.Grammar.Choice

namespace Verdure.Grammar

open ProductionSet (validWeight)

/-! ## Registered productions -/

/-- The production is among those of the symbol. -/
def Registers (g : Grammar) (symbol : Char) (p : Production Float32) : Prop :=
  ∃ set, g.set? symbol = some set ∧ p ∈ set.productions

theorem set?_ofStart (start : Word) (symbol : Char) : (ofStart start).set? symbol = none := by
  simp [ofStart, set?]

theorem not_registers_ofStart (start : Word) (symbol : Char) (p : Production Float32) :
    ¬(ofStart start).Registers symbol p := by
  rintro ⟨set, h_set, -⟩
  rw [set?_ofStart] at h_set
  cases h_set

/-- A registration adds its production and nothing else. -/
theorem registers_register (g : Grammar) (p q : Production Float32) (symbol : Char) :
    (g.register p).Registers symbol q ↔ p.source = symbol ∧ q = p ∨ g.Registers symbol q := by
  unfold Registers
  rw [set?_register]
  by_cases h_source : p.source = symbol
  · rw [if_pos h_source]
    cases h_set : g.set? symbol with
    | none => simp [h_source, ProductionSet.add, ProductionSet.empty]
    | some set => simp [h_source, ProductionSet.add, or_comm]
  · simp [h_source]

/-! ## Built grammars -/

/-- The grammars that can be built: of a start word, of other start words, and of
    registrations, those of refused weights apart. -/
inductive Built : Grammar → Prop
  | ofStart (start : Word) : Built (ofStart start)
  | restart {g : Grammar} (start : Word) : Built g → Built { g with start }
  | add {g : Grammar} (symbol : Char) (replacement : Word) :
      Built g → Built (g.add symbol replacement)
  | addWeighted {g g' : Grammar} {p : Production Float32} :
      Built g → g.addWeighted p = .ok g' → Built g'

/-- Every set stands under its own symbol, holds a production and is well formed. -/
def WellFormed (g : Grammar) : Prop :=
  ∀ symbol set, g.set? symbol = some set →
    set.source = symbol ∧ set.productions ≠ [] ∧ set.WellFormed

theorem wellFormed_ofStart (start : Word) : (ofStart start).WellFormed := by
  intro symbol set h_set
  rw [set?_ofStart] at h_set
  cases h_set

theorem WellFormed.register {g : Grammar} (h : g.WellFormed) {p : Production Float32}
    (h_weight : validWeight p.weight = true) : (g.register p).WellFormed := by
  intro symbol set h_set
  rw [set?_register] at h_set
  split at h_set
  next h_source =>
    -- The set of the source, which is a new one if the symbol had none.
    have h_old : ((g.set? symbol).getD (.empty symbol)).source = symbol ∧
        ((g.set? symbol).getD (.empty symbol)).WellFormed := by
      cases h_symbol : g.set? symbol with
      | none => exact ⟨rfl, ProductionSet.wellFormed_empty symbol⟩
      | some old =>
          obtain ⟨h_old_source, -, h_old⟩ := h symbol old h_symbol
          exact ⟨h_old_source, h_old⟩
    obtain ⟨h_old_source, h_old⟩ := h_old
    obtain rfl := Option.some.inj h_set
    refine ⟨h_old_source, ?_, h_old.add (h_source.trans h_old_source.symm) h_weight⟩
    exact List.append_ne_nil_of_right_ne_nil _ (List.cons_ne_nil p [])
  next => exact h symbol set h_set

theorem validWeight_of_addWeighted {g g' : Grammar} {p : Production Float32}
    (h : g.addWeighted p = .ok g') : validWeight p.weight = true ∧ g' = g.register p := by
  unfold addWeighted at h
  split at h
  next h_weight =>
    cases h
    exact ⟨h_weight, rfl⟩
  next => cases h

theorem Built.wellFormed {g : Grammar} (h : g.Built) : g.WellFormed := by
  induction h with
  | ofStart start => exact wellFormed_ofStart start
  | restart start _ ih => exact ih
  | add symbol replacement _ ih =>
      have h_one : validWeight 1.0 = true := by decide
      exact ih.register h_one
  | addWeighted _ h_add ih =>
      obtain ⟨h_weight, rfl⟩ := validWeight_of_addWeighted h_add
      exact ih.register h_weight

end Verdure.Grammar
