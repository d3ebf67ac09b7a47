/-
  Verdure.Proofs.PointTree.History

  What a point tree holds after any history of edits.

  A node at depth `d` splits along the axis of `d`, with the points that compare below it on
  one side and all others on the other side (`PointNode.Ordered`).  Insertion keeps this
  for every kind of scalar, since it descends by the very comparison the invariant names,
  and the contents only ever change by the inserted points.  A batch is a series of
  insertions, whatever order it sorts by.
-/
import Verdure.PointTree.Basic
import Mathlib.Data.List.Perm.Basic

namespace Verdure

variable {α β : Type} [Scalar α]

/-! ## Nodes -/

namespace PointNode

/-- Every split node takes the axis of its depth and keeps the points that compare below it
    apart from the others. -/
def Ordered : Nat → PointNode α β → Prop
  | _, .empty => True
  | depth, .split p _ axis below above =>
      axis = .atDepth depth ∧
      (∀ e ∈ below.toList, e.1.get axis < p.get axis) ∧
      (∀ e ∈ above.toList, ¬e.1.get axis < p.get axis) ∧
      Ordered (depth + 1) below ∧ Ordered (depth + 1) above

theorem toList_insertAt (point : Vec3 α) (value : β) (depth : Nat) (node : PointNode α β) :
    (node.insertAt point value depth).toList.Perm ((point, value) :: node.toList) := by
  induction node generalizing depth with
  | empty => exact List.Perm.refl _
  | split p b axis below above ih_below ih_above =>
      rw [insertAt]
      split
      · have h_side := ((ih_below (depth + 1)).append_right above.toList).cons (p, b)
        exact h_side.trans (List.Perm.swap _ _ _)
      · have h_side := ((ih_above (depth + 1)).append_left below.toList).cons (p, b)
        refine h_side.trans ((List.perm_middle.cons (p, b)).trans (List.Perm.swap _ _ _))

theorem mem_insertAt {point : Vec3 α} {value : β} {depth : Nat} {node : PointNode α β}
    {e : Vec3 α × β} (h : e ∈ (node.insertAt point value depth).toList) :
    e = (point, value) ∨ e ∈ node.toList :=
  List.mem_cons.mp ((toList_insertAt point value depth node).mem_iff.mp h)

theorem ordered_insertAt (point : Vec3 α) (value : β) {depth : Nat} {node : PointNode α β}
    (h : node.Ordered depth) : (node.insertAt point value depth).Ordered depth := by
  induction node generalizing depth with
  | empty =>
      refine ⟨rfl, ?_, ?_, trivial, trivial⟩
      · intro e he
        exact absurd he (List.not_mem_nil)
      · intro e he
        exact absurd he (List.not_mem_nil)
  | split p b axis below above ih_below ih_above =>
      obtain ⟨h_axis, h_lt, h_not_lt, h_below, h_above⟩ := h
      rw [insertAt]
      -- The point goes to the side that the invariant asks of it.
      split
      next h_side =>
        refine ⟨h_axis, ?_, h_not_lt, ih_below h_below, h_above⟩
        intro e he
        rcases mem_insertAt he with rfl | he
        · exact h_side
        · exact h_lt e he
      next h_side =>
        refine ⟨h_axis, h_lt, ?_, h_below, ih_above h_above⟩
        intro e he
        rcases mem_insertAt he with rfl | he
        · exact h_side
        · exact h_not_lt e he

end PointNode

/-! ## Trees -/

namespace PointTree

/-- The tree is well formed and holds exactly the given points. -/
structure Represents (tree : PointTree α β) (stored : List (Vec3 α × β)) : Prop where
  ordered : tree.root.Ordered 0
  contents : tree.toList.Perm stored
  size : tree.size = stored.length

theorem represents_empty : Represents (empty : PointTree α β) [] :=
  ⟨trivial, List.Perm.refl _, rfl⟩

theorem Represents.insert {tree : PointTree α β} {stored : List (Vec3 α × β)}
    (h : tree.Represents stored) (point : Vec3 α) (value : β) :
    (tree.insert point value).Represents ((point, value) :: stored) := by
  refine ⟨PointNode.ordered_insertAt point value h.ordered, ?_, ?_⟩
  · exact (PointNode.toList_insertAt point value 0 tree.root).trans (h.contents.cons _)
  · rw [List.length_cons, ← h.size]
    rfl

theorem Represents.perm {tree : PointTree α β} {stored stored' : List (Vec3 α × β)}
    (h : tree.Represents stored) (h_perm : stored.Perm stored') : tree.Represents stored' :=
  ⟨h.ordered, h.contents.trans h_perm, h.size.trans h_perm.length_eq⟩

theorem insertMedians_nil (tree : PointTree α β) (depth : Nat) :
    tree.insertMedians depth [] = tree := by
  rw [insertMedians.eq_def]
  dsimp only
  split
  next => rfl
  next median upper h_drop => simp [sortAlong] at h_drop

/-- Of a batch that is not empty the median goes first. -/
theorem insertMedians_eq (tree : PointTree α β) (depth : Nat) {points : List (Vec3 α × β)}
    (h : points ≠ []) : ∃ lower median upper,
      sortAlong (.atDepth depth) points = lower ++ median :: upper ∧
      lower.length = points.length / 2 ∧
      tree.insertMedians depth points
        = ((tree.insert median.1 median.2).insertMedians (depth + 1) lower).insertMedians
            (depth + 1) upper := by
  have h_pos : 0 < points.length := List.length_pos_iff.mpr h
  have h_length := length_sortAlong (.atDepth depth) points
  rw [insertMedians.eq_def]
  dsimp only
  split
  next h_drop =>
    -- Half of a batch, rounded down, leaves at least one point.
    have h_drop_length := congrArg List.length h_drop
    rw [List.length_drop, h_length, List.length_nil] at h_drop_length
    omega
  next median upper h_drop =>
    refine ⟨(sortAlong (.atDepth depth) points).take (points.length / 2), median, upper, ?_, ?_,
      rfl⟩
    · rw [← h_drop, List.take_append_drop]
    · rw [List.length_take, h_length]
      omega

theorem sortAlong_perm (axis : Axis) (points : List (Vec3 α × β)) :
    (sortAlong axis points).Perm points :=
  List.mergeSort_perm _ _

theorem Represents.insertMedians {tree : PointTree α β} {stored : List (Vec3 α × β)}
    (h : tree.Represents stored) (depth : Nat) (points : List (Vec3 α × β)) :
    (tree.insertMedians depth points).Represents (points ++ stored) := by
  -- Both parts of a batch are shorter than the batch.
  induction h_length : points.length using Nat.strongRecOn
    generalizing tree stored depth points with
  | ind n ih =>
      by_cases h_nil : points = []
      · subst h_nil
        rw [insertMedians_nil]
        exact h
      · obtain ⟨lower, median, upper, h_sorted, h_lower, h_eq⟩ :=
          insertMedians_eq tree depth h_nil
        have h_total := congrArg List.length h_sorted
        rw [length_sortAlong, List.length_append, List.length_cons] at h_total
        have h_median := h.insert median.1 median.2
        have h_first := ih lower.length (by omega) h_median (depth + 1) lower rfl
        have h_second := ih upper.length (by omega) h_first (depth + 1) upper rfl
        rw [h_eq]
        refine h_second.perm ?_
        have h_points := sortAlong_perm (.atDepth depth) points
        rw [h_sorted] at h_points
        -- The parts come back in the order upper, lower, median.
        have h_swap : (upper ++ (lower ++ median :: stored)).Perm
            (lower ++ (upper ++ median :: stored)) :=
          List.perm_append_comm_assoc upper lower _
        have h_middle : (lower ++ (upper ++ median :: stored)).Perm
            (lower ++ median :: upper ++ stored) := by
          rw [List.append_assoc]
          exact List.perm_middle.append_left lower
        exact h_swap.trans (h_middle.trans (h_points.append_right stored))

/-! ## Histories -/

/-- An edit of a tree: a new tree of a batch, one more point, or no points any more. -/
inductive Edit (α β : Type) where
  | build (points : List (Vec3 α × β))
  | insert (point : Vec3 α) (value : β)
  | clear

/-- The tree after an edit. -/
def edit (tree : PointTree α β) : Edit α β → PointTree α β
  | .build points => PointTree.build points
  | .insert point value => tree.insert point value
  | .clear => empty

/-- The points stored after an edit. -/
def Edit.store (stored : List (Vec3 α × β)) : Edit α β → List (Vec3 α × β)
  | .build points => points
  | .insert point value => (point, value) :: stored
  | .clear => []

/-- The tree after a series of edits, the first of which finds it empty. -/
def ofHistory (edits : List (Edit α β)) : PointTree α β := edits.foldl edit empty

/-- The points stored after a series of edits. -/
def stored (edits : List (Edit α β)) : List (Vec3 α × β) := edits.foldl Edit.store []

theorem Represents.edit {tree : PointTree α β} {stored : List (Vec3 α × β)}
    (h : tree.Represents stored) (e : Edit α β) : (tree.edit e).Represents (e.store stored) := by
  cases e with
  | build points =>
      have h_build := represents_empty.insertMedians 0 points
      rw [List.append_nil] at h_build
      exact h_build
  | insert point value => exact h.insert point value
  | clear => exact represents_empty

/-- After any history the tree is well formed and holds what was stored. -/
theorem represents_ofHistory (edits : List (Edit α β)) :
    (ofHistory edits).Represents (stored edits) := by
  -- The edits start from the empty tree, but the induction needs any tree to start from.
  have h_fold : ∀ (tree : PointTree α β) (held : List (Vec3 α × β)), tree.Represents held →
      (edits.foldl edit tree).Represents (edits.foldl Edit.store held) := by
    induction edits with
    | nil => exact fun _ _ h => h
    | cons e edits ih => exact fun tree held h => ih _ _ (h.edit e)
  exact h_fold _ _ represents_empty

end PointTree

end Verdure
