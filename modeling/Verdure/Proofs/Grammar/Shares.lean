/-
  Verdure.Proofs.Grammar.Shares

  The share of every production in a weighted choice, in exact arithmetic.

  The scan adds the weights from the last production on, so what it has added when it reaches
  position `i` is `weightFrom i`, the sum of the weights at `i` and behind it.  A production is
  chosen where the scaled draw is in the half-open interval between two neighbouring sums
  (`crossing_eq_some_iff`).  These intervals cut the unit interval into pieces that are as long
  as the weights ask for, so no draw falls through.
-/
import Mathlib.Algebra.BigOperators.Ring.List
import Mathlib.Algebra.Order.BigOperators.Group.List
import Mathlib.Data.Set.Lattice
import Mathlib.Order.Interval.Set.Basic
import Mathlib.Tactic.Linarith
import Verdure.Proofs.Exact.Rational
import Verdure.Proofs.Grammar.Choice

namespace Verdure.ProductionSet

/-! ## Sums of weights -/

/-- The sum of the weights of the productions from a position on. -/
def weightFrom (productions : List (Production ℚ)) (i : ℕ) : ℚ :=
  ((productions.drop i).map (·.weight)).sum

variable {productions : List (Production ℚ)} {p : Production ℚ} {i : ℕ} {threshold sum : ℚ}

theorem weightFrom_concat (h : i ≤ productions.length) :
    weightFrom (productions ++ [p]) i = weightFrom productions i + p.weight := by
  simp [weightFrom, List.drop_append_of_le_length h]

theorem weightFrom_of_length_le (h : productions.length ≤ i) : weightFrom productions i = 0 := by
  simp [weightFrom, List.drop_eq_nil_of_le h]

theorem weightFrom_past (front : List (Production ℚ)) (p : Production ℚ) :
    weightFrom (front ++ [p]) (front.length + 1) = 0 :=
  weightFrom_of_length_le (List.length_append ..).le

theorem weightFrom_eq_add (h : productions[i]? = some p) :
    weightFrom productions i = p.weight + weightFrom productions (i + 1) := by
  obtain ⟨h_lt, rfl⟩ := List.getElem?_eq_some_iff.mp h
  rw [weightFrom, List.drop_eq_getElem_cons h_lt, List.map_cons, List.sum_cons, weightFrom]

theorem weightFrom_nonneg (h_pos : ∀ p ∈ productions, 0 < p.weight) (i : ℕ) :
    0 ≤ weightFrom productions i := by
  refine List.sum_nonneg fun w h_w => ?_
  obtain ⟨p, h_p, rfl⟩ := List.mem_map.mp h_w
  exact (h_pos p (List.mem_of_mem_drop h_p)).le

theorem weightFrom_le_weightFrom_zero (h_pos : ∀ p ∈ productions, 0 < p.weight) (i : ℕ) :
    weightFrom productions i ≤ weightFrom productions 0 := by
  -- The weights before the position are those that are left out.
  have h_split : weightFrom productions 0
      = ((productions.take i).map (·.weight)).sum + weightFrom productions i := by
    rw [weightFrom, weightFrom, List.drop_zero, ← List.sum_append, ← List.map_append,
      List.take_append_drop]
  have h_front : 0 ≤ ((productions.take i).map (·.weight)).sum := by
    refine List.sum_nonneg fun w h_w => ?_
    obtain ⟨p, h_p, rfl⟩ := List.mem_map.mp h_w
    exact (h_pos p (List.mem_of_mem_take h_p)).le
  linarith

theorem total_ofProductions (source : Char) (productions : List (Production ℚ)) :
    (ofProductions source productions).total = weightFrom productions 0 := by
  rw [ofProductions_eq]
  show (productions.map (·.weight)).foldl (· + ·) (0.0 : ℚ) = _
  rw [Scalar.zero_rat, weightFrom, List.drop_zero, List.sum_eq_foldl]

/-! ## Where a scan stops -/

/-- A scan that starts at or below the threshold stops at the one production whose weight takes
    the sum past it. -/
theorem crossing_eq_some_iff (h_pos : ∀ p ∈ productions, 0 < p.weight) (h_sum : sum ≤ threshold) :
    crossing threshold sum productions.zipIdx.reverse = some (p, i) ↔
      productions[i]? = some p ∧ sum + weightFrom productions (i + 1) ≤ threshold ∧
        threshold < sum + weightFrom productions i := by
  induction productions using List.reverseRecOn generalizing sum with
  | nil => simp [crossing]
  | append_singleton front q ih =>
      have h_front : ∀ p ∈ front, 0 < p.weight :=
        fun p h_p => h_pos p (List.mem_append_left [q] h_p)
      have h_assoc : ∀ w, sum + q.weight + w = sum + (w + q.weight) := by
        intro w
        ring
      rw [crossing_concat]
      -- The positions of the front, that of the last production, and those past the end.
      rcases lt_trichotomy i front.length with h_lt | rfl | h_gt
      · rw [List.getElem?_append_left h_lt, weightFrom_concat h_lt, weightFrom_concat h_lt.le]
        split
        next h_cross =>
          have h_nonneg := weightFrom_nonneg h_front (i + 1)
          refine iff_of_false ?_ ?_
          · intro h
            cases h
            exact lt_irrefl _ h_lt
          · rintro ⟨-, h_le, -⟩
            linarith
        next h_cross => rw [ih h_front (not_lt.mp h_cross), h_assoc, h_assoc]
      · rw [List.getElem?_concat_length, weightFrom_past, weightFrom_concat le_rfl,
          weightFrom_of_length_le le_rfl, add_zero, zero_add]
        split
        next h_cross => simp [h_sum, h_cross]
        next h_cross => simp [ih h_front (not_lt.mp h_cross), h_cross]
      · have h_none : (front ++ [q])[i]? = none := by
          rw [List.getElem?_eq_none_iff, List.length_append, List.length_singleton]
          exact h_gt
        have h_none_front : front[i]? = none := List.getElem?_eq_none h_gt.le
        split
        next h_cross => simp [h_none, h_gt.ne]
        next h_cross => simp [ih h_front (not_lt.mp h_cross), h_none, h_none_front]

/-- A scan runs to its end only if all weights together stay at or below the threshold. -/
theorem crossing_eq_none_iff (h_pos : ∀ p ∈ productions, 0 < p.weight) (h_sum : sum ≤ threshold) :
    crossing threshold sum productions.zipIdx.reverse = none ↔
      sum + weightFrom productions 0 ≤ threshold := by
  induction productions using List.reverseRecOn generalizing sum with
  | nil => simpa [crossing, weightFrom] using h_sum
  | append_singleton front q ih =>
      have h_front : ∀ p ∈ front, 0 < p.weight :=
        fun p h_p => h_pos p (List.mem_append_left [q] h_p)
      rw [crossing_concat, weightFrom_concat (Nat.zero_le _)]
      split
      next h_cross =>
        have h_nonneg := weightFrom_nonneg h_front 0
        refine iff_of_false (Option.some_ne_none _) ?_
        linarith
      next h_cross =>
        rw [ih h_front (not_lt.mp h_cross), add_assoc, add_comm q.weight]

/-! ## Shares -/

/-- The draws whose product with all weights together is in the interval of a position. -/
def share (productions : List (Production ℚ)) (i : ℕ) : Set ℚ :=
  {s | weightFrom productions (i + 1) ≤ s * weightFrom productions 0 ∧
    s * weightFrom productions 0 < weightFrom productions i}

/-- The shares of the productions cut the unit interval into half-open pieces.  Each is as long
    as the weight of its production is in relation to all weights, and the lowest one is that
    of the last production. -/
structure SharesUnit (productions : List (Production ℚ)) : Prop where
  covers : (⋃ i ∈ Set.Iio productions.length, share productions i) = Set.Ico 0 1
  apart : ∀ i j s, i < productions.length → j < productions.length →
    s ∈ share productions i → s ∈ share productions j → i = j
  piece : ∀ i p, productions[i]? = some p → ∃ low,
    share productions i = Set.Ico low (low + p.weight / weightFrom productions 0)
  bottom : ∀ front p, productions = front ++ [p] →
    share productions front.length = Set.Ico 0 (p.weight / weightFrom productions 0)

variable {s : ℚ}

theorem weightFrom_zero_pos (h_pos : ∀ p ∈ productions, 0 < p.weight)
    (h_two : 2 ≤ productions.length) : 0 < weightFrom productions 0 := by
  have h_first := List.getElem?_eq_getElem (Nat.lt_of_succ_le (Nat.le_of_succ_le h_two))
  rw [weightFrom_eq_add h_first]
  exact add_pos_of_pos_of_nonneg (h_pos _ (List.mem_of_getElem? h_first))
    (weightFrom_nonneg h_pos 1)

theorem share_eq_Ico (h_total : 0 < weightFrom productions 0) (h : productions[i]? = some p) :
    share productions i =
      Set.Ico (weightFrom productions (i + 1) / weightFrom productions 0)
        (weightFrom productions (i + 1) / weightFrom productions 0
          + p.weight / weightFrom productions 0) := by
  ext s
  rw [Set.mem_Ico, ← add_div, add_comm _ p.weight, ← weightFrom_eq_add h, div_le_iff₀ h_total,
    lt_div_iff₀ h_total]
  rfl

theorem mem_Ico_of_mem_share (h_pos : ∀ p ∈ productions, 0 < p.weight)
    (h_total : 0 < weightFrom productions 0) (h : s ∈ share productions i) :
    s ∈ Set.Ico (0 : ℚ) 1 := by
  obtain ⟨h_low, h_high⟩ := h
  constructor
  · exact nonneg_of_mul_nonneg_left ((weightFrom_nonneg h_pos (i + 1)).trans h_low) h_total
  · have h_lt := h_high.trans_le (weightFrom_le_weightFrom_zero h_pos i)
    exact (mul_lt_iff_lt_one_left h_total).mp h_lt

/-- A scan for a scaled draw stops at the production whose share the draw is in. -/
theorem crossing_scaled_eq_some_iff (h_pos : ∀ p ∈ productions, 0 < p.weight) (h_draw : 0 ≤ s) :
    crossing (s * weightFrom productions 0) 0 productions.zipIdx.reverse = some (p, i) ↔
      productions[i]? = some p ∧ s ∈ share productions i := by
  have h_sum : 0 ≤ s * weightFrom productions 0 := mul_nonneg h_draw (weightFrom_nonneg h_pos 0)
  rw [crossing_eq_some_iff h_pos h_sum, zero_add, zero_add]
  rfl

theorem exists_crossing_scaled (h_pos : ∀ p ∈ productions, 0 < p.weight)
    (h_total : 0 < weightFrom productions 0) (h_draw : s ∈ Set.Ico (0 : ℚ) 1) :
    ∃ p i, crossing (s * weightFrom productions 0) 0 productions.zipIdx.reverse = some (p, i) := by
  have h_sum : 0 ≤ s * weightFrom productions 0 := mul_nonneg h_draw.1 h_total.le
  have h_lt : s * weightFrom productions 0 < 0 + weightFrom productions 0 := by
    rw [zero_add]
    exact (mul_lt_iff_lt_one_left h_total).mpr h_draw.2
  have h_some := (crossing_eq_none_iff h_pos h_sum).not.mpr h_lt.not_ge
  obtain ⟨⟨p, i⟩, h⟩ := Option.ne_none_iff_exists'.mp h_some
  exact ⟨p, i, h⟩

theorem exists_mem_share (h_pos : ∀ p ∈ productions, 0 < p.weight)
    (h_total : 0 < weightFrom productions 0) (h_draw : s ∈ Set.Ico (0 : ℚ) 1) :
    ∃ i < productions.length, s ∈ share productions i := by
  obtain ⟨p, i, h_crossing⟩ := exists_crossing_scaled h_pos h_total h_draw
  obtain ⟨h_p, h_share⟩ := (crossing_scaled_eq_some_iff h_pos h_draw.1).mp h_crossing
  exact ⟨i, (List.getElem?_eq_some_iff.mp h_p).1, h_share⟩

/-- A draw is in one share only, since one scan cannot stop at two positions. -/
theorem eq_of_mem_share (h_pos : ∀ p ∈ productions, 0 < p.weight)
    (h_total : 0 < weightFrom productions 0) {j : ℕ} (h_i : i < productions.length)
    (h_j : j < productions.length) (h_share : s ∈ share productions i)
    (h_share' : s ∈ share productions j) : i = j := by
  have h_draw := (mem_Ico_of_mem_share h_pos h_total h_share).1
  have h_crossing := (crossing_scaled_eq_some_iff h_pos h_draw).mpr
    ⟨List.getElem?_eq_getElem h_i, h_share⟩
  have h_crossing' := (crossing_scaled_eq_some_iff h_pos h_draw).mpr
    ⟨List.getElem?_eq_getElem h_j, h_share'⟩
  rw [h_crossing] at h_crossing'
  exact congrArg Prod.snd (Option.some.inj h_crossing')

theorem sharesUnit (h_pos : ∀ p ∈ productions, 0 < p.weight)
    (h_total : 0 < weightFrom productions 0) : SharesUnit productions := by
  refine ⟨?_, ?_, ?_, ?_⟩
  · ext s
    simp only [Set.mem_iUnion, Set.mem_Iio, exists_prop]
    constructor
    · rintro ⟨i, -, h_share⟩
      exact mem_Ico_of_mem_share h_pos h_total h_share
    · exact exists_mem_share h_pos h_total
  · intro i j s h_i h_j h_share h_share'
    exact eq_of_mem_share h_pos h_total h_i h_j h_share h_share'
  · intro i p h
    exact ⟨_, share_eq_Ico h_total h⟩
  · rintro front p rfl
    rw [share_eq_Ico h_total List.getElem?_concat_length, weightFrom_past, zero_div, zero_add]

/-! ## Choices -/

/-- With two productions or more, a draw chooses the production whose share it is in. -/
theorem select_eq_ok_iff (source : Char) (h_two : 2 ≤ productions.length)
    (h_pos : ∀ p ∈ productions, 0 < p.weight) {draw : Unit → ℚ}
    (h_draw : draw () ∈ Set.Ico (0 : ℚ) 1) :
    (ofProductions source productions).select draw = .ok (p, i) ↔
      productions[i]? = some p ∧ draw () ∈ share productions i := by
  have h_total := weightFrom_zero_pos h_pos h_two
  obtain ⟨q, j, h_crossing⟩ := exists_crossing_scaled h_pos h_total h_draw
  have h_select : (ofProductions source productions).select draw = .ok (q, j) := by
    have h_size : 2 ≤ (ofProductions source productions).size := by
      rw [size, ofProductions_eq]
      exact h_two
    have h_positive : (0.0 : ℚ) < (ofProductions source productions).total := by
      rw [total_ofProductions, Scalar.zero_rat]
      exact h_total
    obtain ⟨first, h_select⟩ := select_eq_of_two_le h_size h_positive draw
    rw [h_select, total_ofProductions, ofProductions_eq, Scalar.zero_rat, h_crossing]
    rfl
  rw [← crossing_scaled_eq_some_iff h_pos h_draw.1, h_crossing, h_select, Except.ok.injEq,
    Option.some.injEq]

end Verdure.ProductionSet

namespace Verdure

/-- The production with its weight given in another unit. -/
def Production.scale (c : ℚ) (p : Production ℚ) : Production ℚ := { p with weight := c * p.weight }

namespace ProductionSet

variable {productions : List (Production ℚ)} {p : Production ℚ} {i : ℕ} {c : ℚ}

theorem weightFrom_scale (c : ℚ) (productions : List (Production ℚ)) (i : ℕ) :
    weightFrom (productions.map (·.scale c)) i = c * weightFrom productions i := by
  rw [weightFrom, weightFrom, ← List.map_drop, List.map_map, ← List.sum_map_mul_left]
  rfl

/-- Shares do not depend on the unit of the weights. -/
theorem share_scale (h : 0 < c) (productions : List (Production ℚ)) (i : ℕ) :
    share (productions.map (·.scale c)) i = share productions i := by
  ext s
  simp only [share, weightFrom_scale, Set.mem_ofPred_eq, mul_left_comm s c]
  rw [mul_le_mul_iff_right₀ h, mul_lt_mul_iff_right₀ h]

/-- Weights in another unit give the same choice. -/
theorem select_scale (source : Char) (h_two : 2 ≤ productions.length)
    (h_pos : ∀ p ∈ productions, 0 < p.weight) {draw : Unit → ℚ}
    (h_draw : draw () ∈ Set.Ico (0 : ℚ) 1) (h : 0 < c)
    (h_select : (ofProductions source productions).select draw = .ok (p, i)) :
    (ofProductions source (productions.map (·.scale c))).select draw = .ok (p.scale c, i) := by
  have h_two_scaled : 2 ≤ (productions.map (·.scale c)).length := by
    rw [List.length_map]
    exact h_two
  have h_pos_scaled : ∀ q ∈ productions.map (·.scale c), 0 < q.weight := by
    intro q h_q
    obtain ⟨r, h_r, rfl⟩ := List.mem_map.mp h_q
    exact mul_pos h (h_pos r h_r)
  obtain ⟨h_p, h_share⟩ := (select_eq_ok_iff source h_two h_pos h_draw).mp h_select
  refine (select_eq_ok_iff source h_two_scaled h_pos_scaled h_draw).mpr ⟨?_, ?_⟩
  · rw [List.getElem?_map, h_p]
    rfl
  · rwa [share_scale h]

/-- **A production is chosen in proportion to its weight.**  Let two productions or more with
    positive weights be registered for a symbol.  In exact arithmetic a draw `s` from `[0, 1)`
    chooses position `i` exactly if `s` times the total is at least the sum of the weights
    behind `i` and less than that sum with the weight of `i`.  These shares cut `[0, 1)` into
    half-open intervals as long as the weights in relation to the total, that of the last
    production at the bottom.  The scan stops for every draw, and weights in another unit give
    the same choices. -/
theorem select_by_shares (source : Char) (productions : List (Production ℚ))
    (h_two : 2 ≤ productions.length) (h_pos : ∀ p ∈ productions, 0 < p.weight) :
    let set := ofProductions source productions
    set.total = weightFrom productions 0 ∧ SharesUnit productions ∧
    ∀ draw : Unit → ℚ, 0 ≤ draw () → draw () < 1 →
      (∀ p i, set.select draw = .ok (p, i) ↔
        productions[i]? = some p ∧
          weightFrom productions (i + 1) ≤ draw () * set.total ∧
          draw () * set.total < weightFrom productions i) ∧
      (∃ p i, set.select draw = .ok (p, i) ∧
        crossing (draw () * set.total) 0 set.productions.zipIdx.reverse = some (p, i)) ∧
      ∀ c, 0 < c → (ofProductions source (productions.map (·.scale c))).select draw
        = (set.select draw).map fun (p, i) => (p.scale c, i) := by
  intro set
  have h_set : set.total = weightFrom productions 0 := total_ofProductions source productions
  have h_total := weightFrom_zero_pos h_pos h_two
  refine ⟨h_set, sharesUnit h_pos h_total, ?_⟩
  intro draw h_zero h_one
  rw [h_set]
  have h_iff : ∀ p i, set.select draw = .ok (p, i) ↔
      productions[i]? = some p ∧ draw () ∈ share productions i :=
    fun p i => select_eq_ok_iff source h_two h_pos ⟨h_zero, h_one⟩
  -- Without rounding the scan always crosses, and what it crosses at is what is chosen.
  obtain ⟨p, i, h_crossing⟩ := exists_crossing_scaled h_pos h_total ⟨h_zero, h_one⟩
  have h_share := (crossing_scaled_eq_some_iff h_pos h_zero).mp h_crossing
  have h_select := (h_iff p i).mpr h_share
  refine ⟨h_iff, ⟨p, i, h_select, ?_⟩, ?_⟩
  · show crossing _ 0 (ofProductions source productions).productions.zipIdx.reverse = _
    rw [ofProductions_eq]
    exact h_crossing
  · intro c h_c
    rw [h_select]
    exact select_scale source h_two h_pos ⟨h_zero, h_one⟩ h_c h_select

/-- Three productions, and the draw at which the share of the second one begins. -/
theorem select_by_shares_at_boundary :
    let productions : List (Production ℚ) := [⟨'F', ['A'], 1⟩, ⟨'F', ['B'], 2⟩, ⟨'F', [], 1 / 2⟩]
    2 ≤ productions.length ∧ (∀ p ∈ productions, 0 < p.weight) ∧
      (ofProductions 'F' productions).select (fun _ => 1 / 7) = .ok (⟨'F', ['B'], 2⟩, 1) ∧
      (ofProductions 'F' (productions.map (·.scale 3))).select (fun _ => 1 / 7)
        = .ok (⟨'F', ['B'], 6⟩, 1) := by
  intro productions
  have h_pos : ∀ p ∈ productions, 0 < p.weight := by
    simp [productions]
  obtain ⟨h_total, -, h_draws⟩ := select_by_shares 'F' productions (by decide) h_pos
  obtain ⟨h_iff, -, h_scale⟩ := h_draws (fun _ => 1 / 7) (by norm_num) (by norm_num)
  have h_select := (h_iff ⟨'F', ['B'], 2⟩ 1).mpr (by
    rw [h_total]
    norm_num [productions, weightFrom])
  refine ⟨by decide, h_pos, h_select, ?_⟩
  rw [h_scale 3 (by norm_num), h_select]
  norm_num [Except.map, Production.scale]

end ProductionSet

end Verdure
