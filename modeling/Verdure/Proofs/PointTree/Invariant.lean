/-
  Verdure.Proofs.PointTree.Invariant

  What holds of every point tree that can be made.

  `PointNode.Ordered` follows a tree down from its root.  Here the same is said of each place in
  it: a node at the end of a way down is ordered for the depth of its place
  (`PointNode.Ordered.of_fill`).  The contents are told by the edits since the tree was started
  last, by a batch or by a clear, so nothing that was stored before it is left, and a batch that
  is sorted and split at each level neither loses nor doubles a point.
-/
import Verdure.Proofs.PointTree.Balance

namespace Verdure

variable {α β : Type}

/-! ## Places -/

namespace PointNode

theorem length_toList (node : PointNode α β) : node.toList.length = node.count := by
  induction node with
  | empty => rfl
  | split p b axis below above ih_below ih_above =>
      rw [toList, count, List.length_cons, List.length_append, ih_below, ih_above]

variable [Scalar α]

/-- A node of an ordered tree is ordered for the depth of its place. -/
theorem Ordered.of_fill {path : Path α β} {node : PointNode α β}
    (h : (path.fill node).Ordered 0) : node.Ordered path.depth := by
  -- The split that a way ends at is in place at the end of the way less its last turn.
  induction path generalizing node with
  | root => exact h
  | toBelow parent p b axis above ih =>
      obtain ⟨-, -, -, h_below, -⟩ := ih h
      exact h_below
  | toAbove parent p b axis below ih =>
      obtain ⟨-, -, -, -, h_above⟩ := ih h
      exact h_above

end PointNode

/-! ## Edits since the start of a tree -/

namespace PointTree

/-- The edit leaves nothing of the tree that it finds. -/
def Edit.startsOver : Edit α β → Bool
  | .build _ | .clear => true
  | .insert .. => false

/-- The points that an edit brings. -/
def Edit.points : Edit α β → List (Vec3 α × β)
  | .build points => points
  | .insert point value => [(point, value)]
  | .clear => []

/-- The edits from the last one that starts over on, or all of them if there is none. -/
def sinceStart : List (Edit α β) → List (Edit α β)
  | [] => []
  | e :: edits => if edits.any Edit.startsOver then sinceStart edits else e :: edits

theorem sinceStart_concat (edits : List (Edit α β)) (e : Edit α β) :
    sinceStart (edits ++ [e]) = if e.startsOver then [e] else sinceStart edits ++ [e] := by
  induction edits with
  | nil => cases e.startsOver <;> rfl
  | cons first edits ih =>
      have h_any : (edits ++ [e]).any Edit.startsOver
          = (edits.any Edit.startsOver || e.startsOver) := by
        rw [List.any_append, List.any_cons, List.any_nil, Bool.or_false]
      rw [List.cons_append, sinceStart, sinceStart, h_any, ih]
      cases e.startsOver <;> cases edits.any Edit.startsOver <;> rfl

theorem stored_concat (edits : List (Edit α β)) (e : Edit α β) :
    stored (edits ++ [e]) = e.store (stored edits) :=
  List.foldl_concat ..

/-- What is stored was brought since the start of the tree. -/
theorem stored_perm (edits : List (Edit α β)) :
    (stored edits).Perm ((sinceStart edits).flatMap Edit.points) := by
  induction edits using List.reverseRecOn with
  | nil => exact List.Perm.refl _
  | append_singleton edits e ih =>
      rw [stored_concat, sinceStart_concat]
      cases e with
      | build points => exact .of_eq (List.append_nil points).symm
      | clear => exact List.Perm.refl _
      | insert point value =>
          have h_points : (sinceStart edits ++ [Edit.insert point value]).flatMap Edit.points
              = (sinceStart edits).flatMap Edit.points ++ [(point, value)] := by
            rw [List.flatMap_append]
            rfl
          show ((point, value) :: stored edits).Perm
            ((sinceStart edits ++ [Edit.insert point value]).flatMap Edit.points)
          rw [h_points]
          exact (ih.cons _).trans (List.perm_append_singleton _ _).symm

variable [Scalar α]

/-- **A point tree keeps its form.**  After any series of batches, insertions and clears, for
    numbers of any kind, those that no comparison holds of included:

    every split at depth `d` is along the axis of `d`, the points on its one side compare below
    its own, and none on its other side does; the size is the number of splits; and what is
    stored is what the edits since the start of the tree brought, each point as often as they
    brought it. -/
theorem splits_and_holds_ofHistory (edits : List (Edit α β)) :
    (∀ (path : PointNode.Path α β) point value axis below above,
      (ofHistory edits).root = path.fill (.split point value axis below above) →
      axis = .atDepth path.depth ∧
        (∀ e ∈ below.toList, e.1.get axis < point.get axis) ∧
        ∀ e ∈ above.toList, ¬e.1.get axis < point.get axis) ∧
    (ofHistory edits).size = (ofHistory edits).root.count ∧
    (ofHistory edits).toList.Perm ((sinceStart edits).flatMap Edit.points) := by
  have h_represents := represents_ofHistory edits
  have h_ordered := h_represents.ordered
  refine ⟨fun path point value axis below above h_root => ?_, ?_, ?_⟩
  · rw [h_root] at h_ordered
    obtain ⟨h_axis, h_below, h_above, -, -⟩ := PointNode.Ordered.of_fill h_ordered
    exact ⟨h_axis, h_below, h_above⟩
  · rw [h_represents.size, ← PointNode.length_toList]
    exact h_represents.contents.length_eq.symm
  · exact h_represents.contents.trans (stored_perm edits)

/-- A batch with NaNs and zeros of both signs, after an insertion that it makes forgotten and
    before one more. -/
theorem splits_and_holds_ofHistory_nan :
    let nan : Float32 := 0.0 / 0.0
    let batch : List (Point × Nat) :=
      [(⟨nan, 1.0, -0.0⟩, 1), (⟨-0.0, nan, 2.0⟩, 2), (⟨0.0, 0.0, 0.0⟩, 3)]
    let tree := ofHistory
      [.insert ⟨9.0, 9.0, 9.0⟩ 0, .build batch, .insert ⟨0.0, -0.0, nan⟩ 4]
    tree.toList.Perm (batch ++ [(⟨0.0, -0.0, nan⟩, 4)]) ∧ tree.root.count = 4 ∧
      ∃ point value below above, tree.root = .split point value .x below above ∧
        (∀ e ∈ below.toList, e.1.x < point.x) ∧ ∀ e ∈ above.toList, ¬e.1.x < point.x := by
  intro nan batch tree
  obtain ⟨h_splits, -, h_contents⟩ := splits_and_holds_ofHistory
    [.insert ⟨9.0, 9.0, 9.0⟩ 0, .build batch, .insert ⟨0.0, -0.0, nan⟩ 4]
  have h_count : tree.root.count = 4 := by
    rw [← PointNode.length_toList]
    exact h_contents.length_eq
  refine ⟨h_contents, h_count, ?_⟩
  cases h_root : tree.root with
  | empty =>
      rw [h_root] at h_count
      cases h_count
  | split point value axis below above =>
      obtain ⟨rfl, h_below, h_above⟩ := h_splits .root point value axis below above h_root
      exact ⟨point, value, below, above, rfl, h_below, h_above⟩

end PointTree

end Verdure
