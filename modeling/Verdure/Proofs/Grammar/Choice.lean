/-
  Verdure.Proofs.Grammar.Choice

  Choices among weighted productions.

  Whatever a draw chooses is a production of the set, at the position that is given with
  it.  A set that was filled with valid weights has a positive total, also where the sum of
  the weights is rounded or overflows to infinity, so that a choice from it only fails
  while it is empty.
-/
import Verdure.Grammar.Production
import Verdure.Proofs.Binary32.Arithmetic

namespace Verdure.ProductionSet

/-! ## What is chosen -/

section Chosen

variable {W : Type} [Scalar W]

theorem mem_of_crossing {threshold sum : W} {entries : List (Production W × Nat)}
    {entry : Production W × Nat} (h : crossing threshold sum entries = some entry) :
    entry ∈ entries := by
  induction entries generalizing sum with
  | nil => simp [crossing] at h
  | cons head rest ih =>
      rw [crossing] at h
      split at h
      · obtain rfl := Option.some.inj h
        exact List.mem_cons_self
      · exact List.mem_cons_of_mem head (ih h)

/-- A choice gives a production of the set and its position. -/
theorem getElem?_of_select {set : ProductionSet W} {draw : Unit → W} {p : Production W} {i : Nat}
    (h : set.select draw = .ok (p, i)) : set.productions[i]? = some p := by
  unfold select at h
  split at h
  next => cases h
  next only h_only =>
    cases h
    rw [h_only]
    rfl
  next first second rest h_all =>
    split at h
    next =>
      -- Either the sum crosses the threshold at an entry, or the first production is given.
      dsimp only at h
      cases h_crossing : crossing (draw () * set.total) 0.0 set.productions.zipIdx.reverse with
      | none =>
          rw [h_crossing] at h
          cases h
          rw [h_all]
          rfl
      | some entry =>
          rw [h_crossing] at h
          cases h
          have h_mem := List.mem_reverse.mp (mem_of_crossing h_crossing)
          exact List.mem_zipIdx_iff_getElem?.mp h_mem
    next => cases h

/-- A set with a production and a positive total has a choice for every draw. -/
theorem exists_select {set : ProductionSet W} (h_some : set.productions ≠ [])
    (h_total : 0.0 < set.total) (draw : Unit → W) :
    ∃ p i, set.select draw = .ok (p, i) := by
  unfold select
  split
  next h_none => exact absurd h_none h_some
  next only _ => exact ⟨only, 0, rfl⟩
  next first _ _ _ =>
    rw [if_pos h_total]
    exact ⟨_, _, rfl⟩

/-- A lone production is chosen, whatever would be drawn. -/
theorem select_of_lone {set : ProductionSet W} {p : Production W} (h : set.productions = [p])
    (draw : Unit → W) : set.select draw = .ok (p, 0) := by
  simp [select, h]

/-- A choice takes as many draws as it is said to.  If it takes one, the scan from the last
    production decides, and the first one is given if no sum of weights exceeds the threshold.
    If it takes none, it is the same for all draws. -/
theorem select_of_draws (set : ProductionSet W) :
    (set.draws = 1 ∧ ∃ first, ∀ draw, set.select draw = .ok
      ((crossing (draw () * set.total) 0.0 set.productions.zipIdx.reverse).getD (first, 0))) ∨
    (set.draws = 0 ∧ ∀ draw draw', set.select draw = set.select draw') := by
  match h_all : set.productions with
  | [] => exact .inr ⟨by simp [draws, size, h_all], fun _ _ => by simp [select, h_all]⟩
  | [only] =>
      refine .inr ⟨by simp [draws, size, h_all], fun draw draw' => ?_⟩
      rw [select_of_lone h_all, select_of_lone h_all]
  | first :: second :: rest =>
      by_cases h_total : 0.0 < set.total
      · refine .inl ⟨by simp [draws, size, h_all, h_total], first, fun draw => ?_⟩
        simp [select, h_all, h_total]
      · exact .inr ⟨by simp [draws, h_total], fun _ _ => by simp [select, h_all, h_total]⟩

/-- A choice among two productions or more takes a draw. -/
theorem select_eq_of_two_le {set : ProductionSet W} (h_two : 2 ≤ set.size)
    (h_total : 0.0 < set.total) (draw : Unit → W) :
    ∃ first, set.select draw = .ok
      ((crossing (draw () * set.total) 0.0 set.productions.zipIdx.reverse).getD (first, 0)) := by
  have h_draws : set.draws = 1 := if_pos ⟨h_two, h_total⟩
  rcases set.select_of_draws with ⟨-, first, h_select⟩ | ⟨h_none, -⟩
  · exact ⟨first, h_select draw⟩
  · rw [h_none] at h_draws
    cases h_draws

end Chosen

/-! ## Sets filled one by one -/

section Filled

variable {W : Type} [Scalar W]

/-- The set of a symbol that productions were added to, one after the other. -/
def ofProductions (source : Char) (productions : List (Production W)) : ProductionSet W :=
  productions.foldl add (.empty source)

theorem ofProductions_concat (source : Char) (productions : List (Production W))
    (p : Production W) :
    ofProductions source (productions ++ [p]) = (ofProductions source productions).add p :=
  List.foldl_concat ..

theorem ofProductions_eq (source : Char) (productions : List (Production W)) :
    ofProductions source productions
      = ⟨source, productions, (productions.map (·.weight)).foldl (· + ·) 0.0⟩ := by
  induction productions using List.reverseRecOn with
  | nil => rfl
  | append_singleton productions p ih => simp [ofProductions_concat, ih, add]

/-- The scan from the last production starts with that one. -/
theorem crossing_concat (threshold sum : W) (productions : List (Production W))
    (p : Production W) :
    crossing threshold sum (productions ++ [p]).zipIdx.reverse =
      if threshold < sum + p.weight then some (p, productions.length)
      else crossing threshold (sum + p.weight) productions.zipIdx.reverse := by
  rw [List.zipIdx_append, List.reverse_append, Nat.zero_add]
  rfl

end Filled

/-! ## Totals of valid weights -/

section Totals

open Binary32

/-- The weights that are refused. -/
theorem not_validWeight_iff (weight : Float32) :
    ¬validWeight weight = true ↔
      weight.isNaN = true ∨ weight.isInf = true ∨ weight ≤ 0.0 := by
  rw [validWeight, Bool.and_eq_true, isFinite_iff, decide_eq_true_eq, isNaN_iff, isInf_iff]
  rcases lt_trichotomy |ordinal weight| top with h | h | h
  · rw [← not_lt_iff abs_ordinal_zero_le h.le]
    simp [h, h.not_gt, h.ne]
  · simp [h]
  · simp [h, h.not_gt]

theorem isMagnitude_of_validWeight {weight : Float32} (h : validWeight weight = true) :
    IsMagnitude weight ∧ 0 < ordinal weight := by
  rw [validWeight, Bool.and_eq_true, isFinite_iff, decide_eq_true_eq] at h
  obtain ⟨h_finite, h_pos⟩ := h
  have h_ordinal := (zero_lt_iff h_finite.le).mp h_pos
  exact ⟨isMagnitude_of_ordinal_pos h_finite.le h_ordinal, h_ordinal⟩

/-- Valid weights never take a running sum down. -/
theorem ordinal_le_foldl_add {weights : List Float32} {sum : Float32}
    (h_weights : ∀ w ∈ weights, validWeight w = true) (h_sum : IsMagnitude sum) :
    IsMagnitude (weights.foldl (· + ·) sum) ∧
      ordinal sum ≤ ordinal (weights.foldl (· + ·) sum) := by
  induction weights generalizing sum with
  | nil => exact ⟨h_sum, le_rfl⟩
  | cons w rest ih =>
      obtain ⟨h_w, h_rest⟩ := List.forall_mem_cons.mp h_weights
      obtain ⟨h_add, h_le, -⟩ := h_sum.add (isMagnitude_of_validWeight h_w).1
      obtain ⟨h_fold, h_fold_le⟩ := ih h_rest h_add
      exact ⟨h_fold, h_le.trans h_fold_le⟩

/-- The sum of valid weights is positive. -/
theorem zero_lt_foldl_add {weights : List Float32}
    (h_weights : ∀ w ∈ weights, validWeight w = true) (h_some : weights ≠ []) :
    0.0 < weights.foldl (· + ·) 0.0 := by
  obtain ⟨first, rest, rfl⟩ := List.exists_cons_of_ne_nil h_some
  obtain ⟨h_first, h_rest⟩ := List.forall_mem_cons.mp h_weights
  obtain ⟨h_weight, h_pos⟩ := isMagnitude_of_validWeight h_first
  -- The first weight is counted from zero, and no later one takes the sum down.
  obtain ⟨h_add, -, h_le⟩ := isMagnitude_zero.add h_weight
  obtain ⟨h_total, h_total_le⟩ := ordinal_le_foldl_add h_rest h_add
  rw [List.foldl_cons, zero_lt_iff h_total.abs_ordinal_le]
  exact (h_pos.trans_le h_le).trans_le h_total_le

/-- What registration keeps of a set: its productions replace its symbol, their weights are
    valid, and the total is the sum of the weights in the order of registration. -/
structure WellFormed (set : ProductionSet Float32) : Prop where
  sources : ∀ p ∈ set.productions, p.source = set.source
  weights : ∀ p ∈ set.productions, validWeight p.weight = true
  total_eq : set.total = (set.productions.map (·.weight)).foldl (· + ·) 0.0

theorem wellFormed_empty (symbol : Char) : (empty symbol : ProductionSet Float32).WellFormed :=
  ⟨fun _ h => absurd h List.not_mem_nil, fun _ h => absurd h List.not_mem_nil, rfl⟩

theorem WellFormed.add {set : ProductionSet Float32} (h : set.WellFormed)
    {p : Production Float32} (h_source : p.source = set.source)
    (h_weight : validWeight p.weight = true) : (set.add p).WellFormed := by
  refine ⟨?_, ?_, ?_⟩
  · intro q hq
    rcases List.mem_append.mp hq with hq | hq
    · exact h.sources q hq
    · rw [List.mem_singleton.mp hq]
      exact h_source
  · intro q hq
    rcases List.mem_append.mp hq with hq | hq
    · exact h.weights q hq
    · rw [List.mem_singleton.mp hq]
      exact h_weight
  · simp [ProductionSet.add, h.total_eq]

/-- The total of a set that holds a production is positive. -/
theorem WellFormed.total_pos {set : ProductionSet Float32} (h : set.WellFormed)
    (h_some : set.productions ≠ []) : 0.0 < set.total := by
  rw [h.total_eq]
  exact zero_lt_foldl_add (List.forall_mem_map.mpr h.weights)
    (List.map_eq_nil_iff.not.mpr h_some)

end Totals

end Verdure.ProductionSet
