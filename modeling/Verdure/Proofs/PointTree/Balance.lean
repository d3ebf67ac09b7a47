/-
  Verdure.Proofs.PointTree.Balance

  Batches build balanced trees.

  Every point of a batch is inserted at the root and finds its own way down.  `Path` is such a
  way, down to an open place.  As long as the whole batch is led to one open place, its median is
  put there (`insertAt_fill`), the points before it are led on to the open place below it, and
  the points behind it to the one above.  So a batch fills a single place with a tree of its own
  (`exists_fill_of_insertMedians`), whose sides hold half of the batch each.
-/
import Verdure.Proofs.Binary32.Ordinal
import Verdure.Proofs.PointTree.History

namespace Verdure

variable {α β : Type}

/-! ## Ways down -/

namespace PointNode

/-- The way from the root of a tree down to a place in it, the last turn first. -/
inductive Path (α β : Type) where
  | root
  | toBelow (parent : Path α β) (point : Vec3 α) (value : β) (axis : Axis)
      (above : PointNode α β)
  | toAbove (parent : Path α β) (point : Vec3 α) (value : β) (axis : Axis)
      (below : PointNode α β)

namespace Path

/-- The number of turns. -/
def depth : Path α β → Nat
  | .root => 0
  | .toBelow parent .. => parent.depth + 1
  | .toAbove parent .. => parent.depth + 1

/-- The tree with a node at the end of the way. -/
def fill : Path α β → PointNode α β → PointNode α β
  | .root, node => node
  | .toBelow parent p b axis above, node => parent.fill (.split p b axis node above)
  | .toAbove parent p b axis below, node => parent.fill (.split p b axis below node)

variable [Scalar α]

/-- The point takes every turn of the way. -/
def Leads : Path α β → Vec3 α → Prop
  | .root, _ => True
  | .toBelow parent p _ axis _, point => parent.Leads point ∧ point.get axis < p.get axis
  | .toAbove parent p _ axis _, point => parent.Leads point ∧ ¬point.get axis < p.get axis

/-- A point that is led to a place is inserted there. -/
theorem insertAt_fill {path : Path α β} {point : Vec3 α} (h : path.Leads point) (value : β)
    (node : PointNode α β) :
    (path.fill node).insertAt point value 0
      = path.fill (node.insertAt point value path.depth) := by
  induction path generalizing node with
  | root => rfl
  | toBelow parent p b axis above ih =>
      rw [fill, ih h.1, insertAt, if_pos h.2]
      rfl
  | toAbove parent p b axis below ih =>
      rw [fill, ih h.1, insertAt, if_neg h.2]
      rfl

end Path

end PointNode

/-! ## Batches -/

namespace PointTree

section Order

variable [Scalar α]

theorem root_insert_of_leads {tree : PointTree α β} {path : PointNode.Path α β}
    (h_root : tree.root = path.fill .empty) {point : Vec3 α} (h : path.Leads point) (value : β) :
    (tree.insert point value).root
      = path.fill (.split point value (.atDepth path.depth) .empty .empty) := by
  rw [insert, h_root, PointNode.Path.insertAt_fill h]
  rfl

/-- A batch is inserted point by point, in some order. -/
theorem exists_order_insertMedians (tree : PointTree α β) (depth : Nat)
    (points : List (Vec3 α × β)) :
    ∃ order : List (Vec3 α × β), order.Perm points ∧
      tree.insertMedians depth points = order.foldl (fun tree e => tree.insert e.1 e.2) tree := by
  induction h_length : points.length using Nat.strongRecOn generalizing tree depth points with
  | ind n ih =>
      by_cases h_nil : points = []
      · subst h_nil
        exact ⟨[], .refl _, insertMedians_nil tree depth⟩
      · obtain ⟨lower, median, upper, h_sorted, -, h_eq⟩ := insertMedians_eq tree depth h_nil
        have h_total := congrArg List.length h_sorted
        rw [length_sortAlong, List.length_append, List.length_cons] at h_total
        obtain ⟨first, h_first, h_lower⟩ :=
          ih lower.length (by omega) (tree.insert median.1 median.2) (depth + 1) lower rfl
        obtain ⟨second, h_second, h_upper⟩ := ih upper.length (by omega)
          ((tree.insert median.1 median.2).insertMedians (depth + 1) lower) (depth + 1) upper rfl
        have h_points := sortAlong_perm (.atDepth depth) points
        rw [h_sorted] at h_points
        refine ⟨median :: (first ++ second), ?_, ?_⟩
        · exact (((h_first.append h_second).cons median).trans List.perm_middle.symm).trans h_points
        · rw [h_eq, h_upper, h_lower, List.foldl_cons, List.foldl_append]

end Order

/-! ## Heights -/

/-- The least height of a tree that holds a number of points. -/
def leastHeight (n : Nat) : Nat := if n = 0 then 0 else n.log2 + 1

theorem leastHeight_mono {m n : Nat} (h : m ≤ n) : leastHeight m ≤ leastHeight n := by
  unfold leastHeight
  split
  next => exact Nat.zero_le _
  next h_pos =>
    rw [if_neg (by omega), Nat.log2_eq_log_two, Nat.log2_eq_log_two]
    exact Nat.succ_le_succ (Nat.log_mono_right h)

/-- Half of the points, rounded down, fill as many levels as all of them less one. -/
theorem leastHeight_half {n : Nat} (h : 0 < n) : leastHeight (n / 2) + 1 = leastHeight n := by
  unfold leastHeight
  rw [if_neg h.ne', Nat.log2_def n]
  split <;> split <;> omega

/-- A median takes one level above the two parts of a batch. -/
theorem leastHeight_parts {lower upper n : Nat} (h_lower : lower = n / 2)
    (h_total : n = lower + (upper + 1)) :
    max (leastHeight lower) (leastHeight upper) + 1 = leastHeight n := by
  have h_le : leastHeight upper ≤ leastHeight lower := leastHeight_mono (by omega)
  rw [max_eq_left h_le, h_lower, leastHeight_half (by omega)]

/-! ## Points apart -/

open Binary32 (ordinal top totalLe)
open PointNode (Path)

/-- All coordinates are finite, and no two points have an equal coordinate on any axis. -/
structure Apart (points : List (Point × β)) : Prop where
  finite : ∀ e ∈ points, ∀ axis, (e.1.get axis).isFinite = true
  distinct : ∀ axis, points.Pairwise fun e e' => (e.1.get axis == e'.1.get axis) = false

theorem Apart.sublist {points points' : List (Point × β)} (h : Apart points)
    (h_sub : points'.Sublist points) : Apart points' :=
  ⟨fun e h_e => h.finite e (h_sub.subset h_e), fun axis => (h.distinct axis).sublist h_sub⟩

theorem Apart.perm {points points' : List (Point × β)} (h : Apart points)
    (h_perm : points'.Perm points) : Apart points' := by
  refine ⟨fun e h_e => h.finite e (h_perm.subset h_e), fun axis => ?_⟩
  refine (h.distinct axis).perm h_perm.symm ?_
  intro e e' h_ne
  rw [Bool.eq_false_iff] at h_ne ⊢
  exact fun h_eq => h_ne (Binary32.beq_symm h_eq)

theorem sortAlong_pairwise_totalLe (axis : Axis) (points : List (Point × β)) :
    (sortAlong axis points).Pairwise fun e e' =>
      totalLe (e.1.get axis) (e'.1.get axis) = true := by
  have h_trans (a b c : Point × β) (h : totalLe (a.1.get axis) (b.1.get axis) = true)
      (h' : totalLe (b.1.get axis) (c.1.get axis) = true) :
      totalLe (a.1.get axis) (c.1.get axis) = true := Binary32.totalLe_trans h h'
  have h_total (a b : Point × β) : (totalLe (a.1.get axis) (b.1.get axis) ||
      totalLe (b.1.get axis) (a.1.get axis)) = true := Binary32.totalLe_total _ _
  exact List.pairwise_mergeSort h_trans h_total points

/-- Points apart are sorted in strictly ascending order. -/
theorem Apart.sortAlong_lt {points : List (Point × β)} (h : Apart points) (axis : Axis) :
    (sortAlong axis points).Pairwise fun e e' => e.1.get axis < e'.1.get axis := by
  have h_apart := h.perm (sortAlong_perm axis points)
  have h_sorted := sortAlong_pairwise_totalLe axis points
  have h_number : ∀ e ∈ sortAlong axis points, |ordinal (e.1.get axis)| ≤ top :=
    fun e h_e => ((Binary32.isFinite_iff _).mp (h_apart.finite e h_e axis)).le
  refine (h_sorted.and (h_apart.distinct axis)).imp_of_mem ?_
  rintro e e' h_e h_e' ⟨h_le, h_ne⟩
  exact Binary32.lt_of_totalLe (h_number e h_e) (h_number e' h_e') h_le h_ne

/-- A median of points apart tells the points before it from those behind it. -/
theorem Apart.median_splits {points lower upper : List (Point × β)} {median : Point × β}
    (h : Apart points) {axis : Axis} (h_sorted : sortAlong axis points = lower ++ median :: upper) :
    (∀ e ∈ lower, e.1.get axis < median.1.get axis) ∧
      ∀ e ∈ upper, ¬e.1.get axis < median.1.get axis := by
  have h_lt := h.sortAlong_lt axis
  rw [h_sorted] at h_lt
  obtain ⟨-, h_upper, h_lower⟩ := List.pairwise_append.mp h_lt
  refine ⟨fun e h_e => h_lower e h_e median (List.mem_cons_self ..), fun e h_e => ?_⟩
  exact Binary32.not_lt_of_lt_ordinal ((List.pairwise_cons.mp h_upper).1 e h_e)

/-! ## Balance -/

/-- A batch that is led to one open place fills it with a tree of the least height. -/
theorem exists_fill_of_insertMedians (tree : PointTree Float32 β) (path : Path Float32 β)
    (points : List (Point × β)) (h_apart : Apart points) (h_root : tree.root = path.fill .empty)
    (h_leads : ∀ e ∈ points, path.Leads e.1) :
    ∃ node, (tree.insertMedians path.depth points).root = path.fill node ∧
      node.height = leastHeight points.length := by
  induction h_length : points.length using Nat.strongRecOn generalizing tree path points with
  | ind n ih =>
      by_cases h_nil : points = []
      · subst h_nil
        refine ⟨.empty, ?_, ?_⟩
        · rw [insertMedians_nil, h_root]
        · rw [← h_length]
          rfl
      · obtain ⟨lower, median, upper, h_sorted, h_half, h_eq⟩ :=
          insertMedians_eq tree path.depth h_nil
        have h_total := congrArg List.length h_sorted
        rw [length_sortAlong, List.length_append, List.length_cons] at h_total
        have h_points := sortAlong_perm (.atDepth path.depth) points
        have h_parts := h_apart.perm h_points
        rw [h_sorted] at h_points h_parts
        have h_led : ∀ e ∈ lower ++ median :: upper, path.Leads e.1 :=
          fun e h_e => h_leads e (h_points.subset h_e)
        obtain ⟨h_lower_lt, h_upper_lt⟩ := h_apart.median_splits h_sorted
        -- The points before the median are led to the place below it.
        have h_median := root_insert_of_leads h_root (h_led median (by simp)) median.2
        obtain ⟨below, h_below, h_below_height⟩ := ih lower.length (by omega)
          (tree.insert median.1 median.2)
          (.toBelow path median.1 median.2 (.atDepth path.depth) .empty) lower
          (h_parts.sublist (List.sublist_append_left lower _)) h_median
          (fun e h_e => ⟨h_led e (by simp [h_e]), h_lower_lt e h_e⟩) rfl
        -- Those behind it are not below it.
        obtain ⟨above, h_above, h_above_height⟩ := ih upper.length (by omega) _
          (.toAbove path median.1 median.2 (.atDepth path.depth) below) upper
          (h_parts.sublist ((List.sublist_cons_self median upper).trans
            (List.sublist_append_right lower _))) h_below
          (fun e h_e => ⟨h_led e (by simp [h_e]), h_upper_lt e h_e⟩) rfl
        refine ⟨.split median.1 median.2 (.atDepth path.depth) below above, ?_, ?_⟩
        · rw [h_eq]
          exact h_above
        · rw [PointNode.height, h_below_height, h_above_height, ← h_length]
          exact leastHeight_parts h_half h_total

/-- No tree with so many points is lower. -/
theorem leastHeight_le_height (node : PointNode α β) :
    leastHeight node.toList.length ≤ node.height := by
  have h_lt : node.toList.length < 2 ^ node.height := by
    induction node with
    | empty => exact Nat.one_pos
    | split p b axis below above ih_below ih_above =>
        have h_below := Nat.pow_le_pow_right Nat.two_pos (le_max_left below.height above.height)
        have h_above := Nat.pow_le_pow_right Nat.two_pos (le_max_right below.height above.height)
        rw [PointNode.toList, PointNode.height, List.length_cons, List.length_append, pow_succ]
        omega
  unfold leastHeight
  split
  next => exact Nat.zero_le _
  next h_pos => exact (Nat.log2_lt h_pos).mpr h_lt

/-- **Batches build balanced trees.**  Let a batch of points have finite coordinates, no two of
    them equal on any axis.  The tree of the batch is made by inserting its points one by one at
    the root, in some order.  It holds each of them once, and its height is the least that a tree
    with so many points can have. -/
theorem build_balanced (points : List (Point × β)) (h_some : points ≠ [])
    (h_apart : Apart points) :
    (∃ order : List (Point × β), order.Perm points ∧
      build points = order.foldl (fun tree e => tree.insert e.1 e.2) empty) ∧
    (build points).toList.Perm points ∧
    (build points).size = points.length ∧
    (build points).root.height = Nat.log2 points.length + 1 ∧
    ∀ node : PointNode Float32 β, node.toList.length = points.length →
      (build points).root.height ≤ node.height := by
  have h_build : build points = empty.insertMedians 0 points := rfl
  have h_represents := represents_empty.insertMedians 0 points
  rw [List.append_nil, ← h_build] at h_represents
  have h_order := exists_order_insertMedians empty 0 points
  obtain ⟨node, h_root, h_height⟩ := exists_fill_of_insertMedians empty .root points h_apart rfl
    (fun _ _ => trivial)
  have h_root_height : (build points).root.height = leastHeight points.length := by
    rw [← h_height, h_build]
    exact congrArg PointNode.height h_root
  refine ⟨h_order, h_represents.contents, h_represents.size, ?_, ?_⟩
  · have h_pos : points.length ≠ 0 := fun h_zero => h_some (List.length_eq_zero_iff.mp h_zero)
    rw [h_root_height, leastHeight, if_neg h_pos]
  · intro node h_node
    rw [h_root_height, ← h_node]
    exact leastHeight_le_height node

/-- Four points in three levels, with zeros of both signs on different axes. -/
theorem build_balanced_four :
    let points : List (Point × Nat) := [(⟨3.0, -0.0, 1.5⟩, 0), (⟨-2.0, 1.0, 0.0⟩, 1),
      (⟨0.0, 4.0, -1.0⟩, 2), (⟨1.0, -3.0, 2.0⟩, 3)]
    Apart points ∧ (build points).toList.Perm points ∧ (build points).root.height = 3 := by
  intro points
  have h_apart : Apart points := by
    refine ⟨fun e h_e axis => ?_, fun axis => ?_⟩
    · revert e
      cases axis <;> decide
    · cases axis <;> decide
  obtain ⟨-, h_contents, -, h_height, -⟩ := build_balanced points (List.cons_ne_nil _ _) h_apart
  have h_levels : Nat.log2 points.length + 1 = 3 := by decide
  exact ⟨h_apart, h_contents, h_height.trans h_levels⟩

end PointTree

end Verdure
