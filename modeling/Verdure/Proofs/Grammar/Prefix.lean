/-
  Verdure.Proofs.Grammar.Prefix

  Derivations of words that begin alike.

  A draw is keyed by the pass, the position in the word of the pass and the symbol, and a
  pass goes from left to right.  So what a pass makes of the first part of a word does not
  depend on what follows it (`passFrom_append`), and in the next pass that part stands at the
  same positions again.
-/
import Verdure.Proofs.Grammar.History

namespace Verdure.Grammar

variable {g : Grammar} {noise : Noise.Source} {pass passes : Nat}

/-- A pass over two parts of a word is a pass over the first one, and one over the second
    one at the positions where that stands. -/
theorem passFrom_append (g : Grammar) (noise : Noise.Source) (pass position : Nat) (u v : Word) :
    g.passFrom noise pass position (u ++ v) = (do
      let first ← g.passFrom noise pass position u
      let second ← g.passFrom noise pass (position + u.length) v
      return first ++ second) := by
  induction u generalizing position with
  | nil =>
      rw [List.nil_append, passFrom, List.length_nil, Nat.add_zero]
      exact (bind_pure _).symm
  | cons symbol rest ih =>
      have h_position : position + (symbol :: rest).length = position + 1 + rest.length := by
        rw [List.length_cons]
        omega
      rw [List.cons_append, passFrom, passFrom, ih, h_position]
      simp only [bind_assoc, pure_bind, List.append_assoc]

/-- A pass over a word makes of its first part what a pass over that part alone makes of
    it. -/
theorem exists_derivePass_of_append {u v long : Word}
    (h : g.derivePass noise pass (u ++ v) = .ok long) :
    ∃ first second, g.derivePass noise pass u = .ok first ∧ long = first ++ second := by
  rw [derivePass_eq_passFrom, passFrom_append] at h
  obtain ⟨first, h_first, h⟩ := exists_of_bind_eq_ok h
  obtain ⟨second, -, h⟩ := exists_of_bind_eq_ok h
  cases h
  exact ⟨first, second, (derivePass_eq_passFrom ..).trans h_first, rfl⟩

/-- If a word can be derived from, so can its first part, and what is derived from that part
    comes first. -/
theorem exists_deriveFrom_of_append {u v long : Word}
    (h : g.deriveFrom noise pass passes (u ++ v) = .ok long) :
    ∃ short, g.deriveFrom noise pass passes u = .ok short ∧ short <+: long := by
  induction passes generalizing pass u v with
  | zero =>
      cases h
      exact ⟨u, rfl, List.prefix_append u v⟩
  | succ passes ih =>
      rw [deriveFrom] at h
      split at h
      next next h_next =>
        obtain ⟨first, second, h_first, rfl⟩ := exists_derivePass_of_append h_next
        rw [deriveFrom, h_first]
        exact ih h
      next => cases h

/-- **What follows a word does not change what is derived from it.**  With any productions
    and weights, and any noise, the word that is derived from `u` in a number of passes is the
    first part of the one that is derived from `u ++ v`, whichever choices the passes make. -/
theorem derive_append (start : Word) (requests : List Request) (noise : Noise.Source)
    (passes : Nat) (u v : Word) :
    ∃ short long,
      { ofRequests start requests with start := u }.derive passes noise = .ok short ∧
      { ofRequests start requests with start := u ++ v }.derive passes noise = .ok long ∧
      short <+: long := by
  have h_wellFormed := (built_ofRequests start requests).wellFormed
  obtain ⟨long, h_long⟩ := h_wellFormed.exists_deriveFrom noise 0 passes (u ++ v)
  obtain ⟨short, h_short, h_prefix⟩ := exists_deriveFrom_of_append h_long
  rw [derive, derive, deriveFrom_restart _ u, deriveFrom_restart _ (u ++ v)]
  exact ⟨short, long, h_short, h_long, h_prefix⟩

end Verdure.Grammar
