/-
  Verdure.Proofs.Grammar.Derivation

  Derivations as parallel rewriting.

  `Rewrites` is one pass in which every choice is free, and `Derives` a number of them.
  Whatever the noise, a derived word is one that `Derives` allows, and in a well-formed
  grammar there always is one.
-/
import Verdure.Grammar.Derivation
import Verdure.Proofs.Grammar.Registration

namespace Verdure.Grammar

/-! ## Rewriting with free choice -/

/-- What a symbol may become in one pass: the replacement of one of its productions, or
    itself if it has none. -/
def Replaces (g : Grammar) (symbol : Char) (word : Word) : Prop :=
  (g.set? symbol = none ∧ word = [symbol]) ∨ ∃ p, g.Registers symbol p ∧ word = p.replacement

/-- One pass: every symbol of a word is replaced at once. -/
inductive Rewrites (g : Grammar) : Word → Word → Prop
  | nil : Rewrites g [] []
  | cons {symbol : Char} {rest replaced next : Word} :
      g.Replaces symbol replaced → Rewrites g rest next →
      Rewrites g (symbol :: rest) (replaced ++ next)

/-- A number of passes, one after the other. -/
inductive Derives (g : Grammar) : Nat → Word → Word → Prop
  | refl (word : Word) : Derives g 0 word word
  | pass {passes : Nat} {word next last : Word} :
      g.Rewrites word next → Derives g passes next last → Derives g (passes + 1) word last

variable {g : Grammar} {noise : Noise.Source} {pass position : Nat} {word next : Word}

/-! ## One pass -/

/-- A pass over the rest of a word whose first symbol has a position. -/
def passFrom (g : Grammar) (noise : Noise.Source) (pass : Nat) :
    Nat → Word → Except PlantError Word
  | _, [] => .ok []
  | position, symbol :: rest => do
      let replaced ← g.replacement noise pass symbol position
      let next ← passFrom g noise pass (position + 1) rest
      return replaced ++ next

theorem derivePass_eq_passFrom (g : Grammar) (noise : Noise.Source) (pass : Nat) (word : Word) :
    g.derivePass noise pass word = g.passFrom noise pass 0 word := by
  unfold derivePass
  -- The positions of the rest of a word do not start at zero.
  generalize 0 = position
  induction word generalizing position with
  | nil => rfl
  | cons symbol rest ih =>
      rw [List.zipIdx_cons, List.mapM_cons, passFrom, ← ih (position + 1)]
      dsimp only
      cases g.replacement noise pass symbol position with
      | error e => rfl
      | ok replaced =>
          cases (rest.zipIdx (position + 1)).mapM
              fun (symbol, position) => g.replacement noise pass symbol position with
          | error e => rfl
          | ok parts => rfl

theorem replaces_of_replacement {symbol : Char} {replaced : Word}
    (h : g.replacement noise pass symbol position = .ok replaced) :
    g.Replaces symbol replaced := by
  unfold replacement at h
  split at h
  next h_none =>
    cases h
    exact .inl ⟨h_none, rfl⟩
  next set h_set =>
    split at h
    next p i h_select =>
      cases h
      have h_mem := List.mem_of_getElem? (ProductionSet.getElem?_of_select h_select)
      exact .inr ⟨p, ⟨set, h_set, h_mem⟩, rfl⟩
    next => cases h

/-- A result in two steps has a result of the first one. -/
theorem exists_of_bind_eq_ok {ε α β : Type} {x : Except ε α} {f : α → Except ε β} {b : β}
    (h : x >>= f = .ok b) : ∃ a, x = .ok a ∧ f a = .ok b := by
  cases x with
  | ok a => exact ⟨a, rfl, h⟩
  | error e => cases h

theorem rewrites_of_passFrom (h : g.passFrom noise pass position word = .ok next) :
    g.Rewrites word next := by
  induction word generalizing position next with
  | nil =>
      cases h
      exact .nil
  | cons symbol rest ih =>
      rw [passFrom] at h
      obtain ⟨replaced, h_replaced, h⟩ := exists_of_bind_eq_ok h
      obtain ⟨last, h_rest, h⟩ := exists_of_bind_eq_ok h
      cases h
      exact .cons (replaces_of_replacement h_replaced) (ih h_rest)

theorem WellFormed.exists_replacement (h : g.WellFormed) (noise : Noise.Source)
    (pass : Nat) (symbol : Char) (position : Nat) :
    ∃ replaced, g.replacement noise pass symbol position = .ok replaced := by
  unfold replacement
  split
  next => exact ⟨[symbol], rfl⟩
  next set h_set =>
    obtain ⟨-, h_some, h_sums⟩ := h symbol set h_set
    obtain ⟨p, i, h_select⟩ :=
      ProductionSet.exists_select h_some (h_sums.total_pos h_some)
        fun _ => noise.selectionSample pass position symbol
    rw [h_select]
    exact ⟨p.replacement, rfl⟩

theorem WellFormed.exists_passFrom (h : g.WellFormed) (noise : Noise.Source) (pass position : Nat)
    (word : Word) : ∃ next, g.passFrom noise pass position word = .ok next := by
  induction word generalizing position with
  | nil => exact ⟨[], rfl⟩
  | cons symbol rest ih =>
      obtain ⟨replaced, h_replaced⟩ := h.exists_replacement noise pass symbol position
      obtain ⟨next, h_next⟩ := ih (position + 1)
      rw [passFrom, h_replaced, h_next]
      exact ⟨replaced ++ next, rfl⟩

/-! ## All passes -/

/-- The passes do not read the start word of the grammar. -/
theorem deriveFrom_restart (g : Grammar) (start : Word) (noise : Noise.Source)
    (pass passes : Nat) (word : Word) :
    { g with start }.deriveFrom noise pass passes word
      = g.deriveFrom noise pass passes word := by
  induction passes generalizing pass word with
  | zero => rfl
  | succ passes ih =>
      have h_pass : { g with start }.derivePass noise pass word = g.derivePass noise pass word :=
        rfl
      rw [deriveFrom, deriveFrom, h_pass]
      simp only [ih]

theorem derives_of_deriveFrom {passes : Nat} {last : Word}
    (h : g.deriveFrom noise pass passes word = .ok last) : g.Derives passes word last := by
  induction passes generalizing pass word with
  | zero =>
      cases h
      exact .refl _
  | succ passes ih =>
      rw [deriveFrom] at h
      split at h
      next next h_pass =>
        rw [derivePass_eq_passFrom] at h_pass
        exact .pass (rewrites_of_passFrom h_pass) (ih h)
      next => cases h

theorem derives_of_derive {passes : Nat} {last : Word} (h : g.derive passes noise = .ok last) :
    g.Derives passes g.start last :=
  derives_of_deriveFrom h

theorem WellFormed.exists_deriveFrom (h : g.WellFormed) (noise : Noise.Source) (pass passes : Nat)
    (word : Word) : ∃ last, g.deriveFrom noise pass passes word = .ok last := by
  induction passes generalizing pass word with
  | zero => exact ⟨word, rfl⟩
  | succ passes ih =>
      obtain ⟨next, h_next⟩ := h.exists_passFrom noise pass 0 word
      rw [← derivePass_eq_passFrom] at h_next
      rw [deriveFrom, h_next]
      exact ih (pass + 1) next

theorem WellFormed.exists_derive (h : g.WellFormed) (passes : Nat) (noise : Noise.Source) :
    ∃ last, g.derive passes noise = .ok last :=
  h.exists_deriveFrom noise 0 passes g.start

/-- What one pass keeps of every word, all passes keep. -/
theorem Derives.keeps {P : Word → Prop} {passes : Nat} {last : Word}
    (h_pass : ∀ word next, P word → g.Rewrites word next → P next)
    (h : g.Derives passes word last) (h_word : P word) : P last := by
  induction h with
  | refl word => exact h_word
  | pass h_rewrites _ ih => exact ih (h_pass _ _ h_word h_rewrites)

end Verdure.Grammar
