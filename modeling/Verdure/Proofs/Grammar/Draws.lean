/-
  Verdure.Proofs.Grammar.Draws

  Greater draws choose earlier productions, with all rounding.

  The scan for a greater threshold goes on at least as long as that for a smaller one, since it
  adds up the same sums, whatever these are (`exists_crossing_of_implies`).  So all that is asked of
  the arithmetic is that scaling by the total keeps the order of the draws.  A total that has
  overflowed makes every threshold infinite or a NaN; then no scan stops, and every draw falls
  through to the first production.
-/
import Verdure.Proofs.Grammar.Choice
import Verdure.Proofs.Binary32.Quotient

namespace Verdure.ProductionSet

open Binary32

/-! ## Scans for two thresholds -/

section Scans

variable {W : Type} [Scalar W] {productions : List (Production W)} {threshold threshold' sum : W}

theorem lt_length_of_crossing {p : Production W} {i : Nat}
    (h : crossing threshold sum productions.zipIdx.reverse = some (p, i)) :
    i < productions.length := by
  have h_mem := List.mem_reverse.mp (mem_of_crossing h)
  exact (List.getElem?_eq_some_iff.mp (List.mem_zipIdx_iff_getElem?.mp h_mem)).1

/-- If every sum that exceeds one threshold exceeds another one too, the scan for the other one
    stops where the first scan stops, or earlier, which is at a later position. -/
theorem exists_crossing_of_implies (h : ∀ x, threshold' < x → threshold < x)
    {q : Production W} {j : Nat}
    (h_crossing : crossing threshold' sum productions.zipIdx.reverse = some (q, j)) :
    ∃ p i, crossing threshold sum productions.zipIdx.reverse = some (p, i) ∧ j ≤ i := by
  induction productions using List.reverseRecOn generalizing sum with
  | nil => simp [crossing] at h_crossing
  | append_singleton front last ih =>
      have h_le : j ≤ front.length := by
        have h_lt := lt_length_of_crossing h_crossing
        rw [List.length_append, List.length_singleton] at h_lt
        exact Nat.le_of_lt_succ h_lt
      rw [crossing_concat] at h_crossing
      by_cases h_low : threshold < sum + last.weight
      · refine ⟨last, front.length, ?_, h_le⟩
        rw [crossing_concat, if_pos h_low]
      · rw [if_neg fun h_high => h_low (h _ h_high)] at h_crossing
        rw [crossing_concat, if_neg h_low]
        exact ih h_crossing

end Scans

/-! ## Sets of pushed productions -/

/-- The set of a symbol that productions were pushed to, one after the other.  A refused one
    leaves the set as it is. -/
def ofPushes (source : Char) (pushed : List (Production Float32)) : ProductionSet Float32 :=
  pushed.foldl (fun set p =>
    match set.push p with
    | .ok grown => grown
    | .error _ => set) (.empty source)

theorem ofPushes_eq (source : Char) (pushed : List (Production Float32)) :
    ofPushes source pushed = ofProductions source (pushed.filter (validWeight ·.weight)) := by
  induction pushed using List.reverseRecOn with
  | nil => rfl
  | append_singleton pushed p ih =>
      rw [ofPushes, List.foldl_concat, ← ofPushes, ih, List.filter_append]
      by_cases h : validWeight p.weight = true
      · simp [push, h, ofProductions_concat]
      · simp [push, h]

/-- Refused productions do not count for the total, which is positive if any was accepted. -/
theorem zero_lt_total_ofPushes {source : Char} {pushed : List (Production Float32)}
    (h_some : (ofPushes source pushed).productions ≠ []) :
    0.0 < (ofPushes source pushed).total := by
  rw [ofPushes_eq, ofProductions_eq] at h_some ⊢
  refine zero_lt_foldl_add (List.forall_mem_map.mpr fun p h_p => ?_)
    (List.map_eq_nil_iff.not.mpr h_some)
  exact (List.mem_filter.mp h_p).2

/-! ## Two draws -/

/-- **A greater draw never chooses a later production.**  Let any productions be pushed to a
    set, some of them perhaps refused, so that those with valid weights are in it.  If there
    are any, two draws `0 ≤ s ≤ t ≤ 1` choose productions, and that for `t` is at the position
    of that for `s` or in front of it. -/
theorem select_antitone (source : Char) (pushed : List (Production Float32)) {s t : Float32}
    (h_zero : 0.0 ≤ s) (h_le : s ≤ t) (h_one : t ≤ 1.0) :
    let set := ofPushes source pushed
    set.productions = pushed.filter (validWeight ·.weight) ∧
      if set.productions = [] then
        set.select (fun _ => s) = .error .noProductions ∧
          set.select (fun _ => t) = .error .noProductions
      else ∃ p i q j, set.select (fun _ => s) = .ok (p, i) ∧
        set.select (fun _ => t) = .ok (q, j) ∧ j ≤ i := by
  intro set
  have h_productions : set.productions = pushed.filter (validWeight ·.weight) := by
    show (ofPushes source pushed).productions = _
    rw [ofPushes_eq, ofProductions_eq]
  refine ⟨h_productions, ?_⟩
  split
  next h_none => simp [select, h_none]
  next h_some =>
    have h_total : 0.0 < set.total := zero_lt_total_ofPushes h_some
    obtain ⟨first, rest, h_all⟩ := List.exists_cons_of_ne_nil h_some
    cases rest with
    | nil => exact ⟨first, 0, first, 0, select_of_lone h_all _, select_of_lone h_all _, le_rfl⟩
    | cons second rest =>
        have h_two : 2 ≤ set.size := by
          rw [size, h_all]
          exact Nat.le_add_left 2 rest.length
        obtain ⟨p, h_s⟩ := select_eq_of_two_le h_two h_total fun _ => s
        obtain ⟨q, h_t⟩ := select_eq_of_two_le h_two h_total fun _ => t
        rw [h_s, h_t]
        cases h_crossing : crossing (t * set.total) 0.0 set.productions.zipIdx.reverse with
        | none => exact ⟨_, _, q, 0, rfl, rfl, Nat.zero_le _⟩
        | some entry =>
            -- The thresholds are in the order of the draws, where sums can exceed them at all.
            have h_finite := abs_ordinal_lt_of_mem_unit (le_trans_ordinal h_zero h_le) h_one
            obtain ⟨p', i, h_crossing', h_le_position⟩ := exists_crossing_of_implies
              (fun x => mul_lt_of_le h_zero h_le h_finite h_total) h_crossing
            rw [h_crossing']
            exact ⟨p', i, entry.1, entry.2, rfl, rfl, h_le_position⟩

/-- A weight that takes up the one before it, a refused one, and draws at both ends. -/
theorem select_antitone_absorbing :
    let pushed : List (Production Float32) :=
      [⟨'F', ['A'], 1.0⟩, ⟨'F', ['B'], 1e9⟩, ⟨'F', ['C'], 0.0⟩, ⟨'F', ['D'], 2.0⟩]
    (0.0 : Float32) ≤ 0.0 ∧ (0.0 : Float32) ≤ 1.0 ∧ (1.0 : Float32) ≤ 1.0 ∧
      ∃ p i q j, (ofPushes 'F' pushed).select (fun _ => 0.0) = .ok (p, i) ∧
        (ofPushes 'F' pushed).select (fun _ => 1.0) = .ok (q, j) ∧ j ≤ i := by
  intro pushed
  have h_zero : (0.0 : Float32) ≤ 0.0 := by decide
  have h_unit : (0.0 : Float32) ≤ 1.0 := by decide
  have h_one : (1.0 : Float32) ≤ 1.0 := by decide
  have h_some : (ofPushes 'F' pushed).productions ≠ [] := by decide +kernel
  obtain ⟨-, h_draws⟩ := select_antitone 'F' pushed h_zero h_unit h_one
  rw [if_neg h_some] at h_draws
  exact ⟨h_zero, h_unit, h_one, h_draws⟩

/-- Two weights with an infinite sum: the threshold is a NaN for the draw `0`, and infinite for
    every other one. -/
example :
    let set := ofPushes 'F' [⟨'F', ['A'], 3e38⟩, ⟨'F', ['B'], 3e38⟩]
    (set.select fun _ => 0.0) = .ok (⟨'F', ['A'], 3e38⟩, 0) ∧
      (set.select fun _ => 0.5) = .ok (⟨'F', ['A'], 3e38⟩, 0) := by
  decide +kernel

end Verdure.ProductionSet
