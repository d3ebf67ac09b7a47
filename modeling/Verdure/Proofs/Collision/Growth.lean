/-
  Verdure.Proofs.Collision.Growth

  What an index keeps when records are added to it.

  `Grown` compares an index with an earlier state of it: the earlier records and anchors are
  all there, and beside them the new records in their order, each at its own anchors.  It
  asks nothing of the earlier state.
-/
import Verdure.Proofs.Collision.Index

namespace Verdure

/-! ## Trees -/

theorem PointNode.toList_sublist_insertAt {α β : Type} [Scalar α] (point : Vec3 α) (value : β)
    (depth : Nat) (node : PointNode α β) :
    node.toList.Sublist (node.insertAt point value depth).toList := by
  induction node generalizing depth with
  | empty => exact List.nil_sublist _
  | split p b axis below above ih_below ih_above =>
      rw [insertAt]
      split
      · exact ((ih_below (depth + 1)).append_right above.toList).cons_cons (p, b)
      · exact ((ih_above (depth + 1)).append_left below.toList).cons_cons (p, b)

namespace PointTree

variable {β : Type} [DecidableEq β]

/-- The points that are stored with a value. -/
def pointsOf (tree : PointTree Float32 β) (value : β) : List Point :=
  (tree.toList.filter (·.2 = value)).map Prod.fst

theorem pointsOf_insert (tree : PointTree Float32 β) (point : Point) (value other : β) :
    ((tree.insert point value).pointsOf other).Perm
      ((if other = value then [point] else []) ++ tree.pointsOf other) := by
  have h_perm : ((tree.insert point value).pointsOf other).Perm
      ((((point, value) :: tree.toList).filter (·.2 = other)).map Prod.fst) :=
    ((PointNode.toList_insertAt point value 0 tree.root).filter _).map _
  refine h_perm.trans (List.Perm.of_eq ?_)
  rw [List.filter_cons]
  by_cases h : value = other
  · rw [if_pos (decide_eq_true h), if_pos h.symm]
    rfl
  · rw [if_neg (by simpa using h), if_neg (Ne.symm h)]
    rfl

theorem pointsOf_foldl_insert (tree : PointTree Float32 β) (points : List Point)
    (value other : β) :
    ((points.foldl (fun tree point => tree.insert point value) tree).pointsOf other).Perm
      ((if other = value then points else []) ++ tree.pointsOf other) := by
  induction points generalizing tree with
  | nil => rw [ite_self, List.nil_append, List.foldl_nil]
  | cons point rest ih =>
      have h_first := pointsOf_insert tree point value other
      refine (ih (tree.insert point value)).trans ((h_first.append_left _).trans ?_)
      split
      · exact List.perm_middle
      · exact List.Perm.refl _

omit [DecidableEq β] in
theorem toList_sublist_foldl_insert (tree : PointTree Float32 β) (points : List Point)
    (value : β) :
    tree.toList.Sublist (points.foldl (fun tree point => tree.insert point value) tree).toList := by
  induction points generalizing tree with
  | nil => exact List.Sublist.refl _
  | cons point rest ih =>
      exact (PointNode.toList_sublist_insertAt point value 0 tree.root).trans
        (ih (tree.insert point value))

omit [DecidableEq β] in
theorem size_foldl_insert (tree : PointTree Float32 β) (points : List Point) (value : β) :
    (points.foldl (fun tree point => tree.insert point value) tree).size
      = tree.size + points.length := by
  induction points generalizing tree with
  | nil => rfl
  | cons point rest ih =>
      rw [List.foldl_cons, ih, List.length_cons, Nat.add_comm rest.length, ← Nat.add_assoc]
      rfl

end PointTree

/-! ## Indices -/

namespace Collision.Index

/-- The points at which the record of an id is anchored. -/
def anchorsAt (index : Index) (id : RecordId) : List Point := index.anchors.pointsOf id

theorem mem_anchorsAt {index : Index} {point : Point} {id : RecordId} :
    point ∈ index.anchorsAt id ↔ (point, id) ∈ index.anchors.toList := by
  simp [anchorsAt, PointTree.pointsOf]

/-- The index with records added in order, each at its anchors. -/
structure Grown (index : Index) (added : List (Bounds Float32 × List Point)) (grown : Index) :
    Prop where
  category : grown.category = index.category
  records : grown.records = index.records ++ (added.map Prod.fst).toArray
  anchorCount : grown.anchorCount = index.anchorCount + (added.flatMap Prod.snd).length
  /-- The earlier anchors are all there. -/
  kept : index.anchors.toList.Sublist grown.anchors.toList
  /-- A new record is at its own anchors. -/
  anchored : ∀ i record points, added[i]? = some (record, points) →
    (grown.anchorsAt ⟨index.category, index.size + i⟩).Perm
      (points ++ index.anchorsAt ⟨index.category, index.size + i⟩)
  /-- Nothing else is anchored anew. -/
  others : ∀ id : RecordId, ¬(id.category = index.category ∧ index.size ≤ id.index ∧
      id.index < index.size + added.length) →
    (grown.anchorsAt id).Perm (index.anchorsAt id)

theorem Grown.refl (index : Index) : index.Grown [] index := by
  refine ⟨rfl, ?_, rfl, List.Sublist.refl _, ?_, fun id _ => List.Perm.refl _⟩
  · rw [List.map_nil, Array.append_empty]
  · intro i record points h
    cases h

section Grown

variable {index grown : Index} {added : List (Bounds Float32 × List Point)}

theorem Grown.size_eq (h : index.Grown added grown) : grown.size = index.size + added.length := by
  have h_added : (added.map Prod.fst).toArray.size = added.length := List.length_map _
  rw [size, size, h.records, Array.size_append, h_added]

theorem anchorsAt_add (index : Index) (record : Bounds Float32) (points : List Point)
    (id : RecordId) :
    ((index.add record points).1.anchorsAt id).Perm
      ((if id = index.nextId then points else []) ++ index.anchorsAt id) :=
  index.anchors.pointsOf_foldl_insert points index.nextId id

/-- One more record is added behind those that were. -/
theorem Grown.add (h : index.Grown added grown) (record : Bounds Float32) (points : List Point) :
    index.Grown (added ++ [(record, points)]) (grown.add record points).1 := by
  have h_next : grown.nextId = ⟨index.category, index.size + added.length⟩ := by
    rw [nextId, h.category, h.size_eq]
  refine ⟨h.category, ?_, ?_, ?_, ?_, ?_⟩
  · show grown.records.push record = _
    rw [h.records, List.map_append, ← List.append_toArray, ← Array.append_assoc,
      ← Array.append_singleton]
    rfl
  · show (List.foldl _ grown.anchors points).size = _
    rw [PointTree.size_foldl_insert, List.flatMap_append, List.length_append, ← Nat.add_assoc,
      ← h.anchorCount, List.flatMap_singleton]
    rfl
  · exact h.kept.trans (grown.anchors.toList_sublist_foldl_insert points grown.nextId)
  · -- The anchors go in under the id of the new record and change those of no other.
    intro i other others h_other
    have h_add := anchorsAt_add grown record points ⟨index.category, index.size + i⟩
    rw [h_next] at h_add
    rcases Nat.lt_trichotomy i added.length with h_lt | rfl | h_gt
    · -- An earlier record keeps its anchors.
      rw [List.getElem?_append_left h_lt] at h_other
      have h_ne : (⟨index.category, index.size + i⟩ : RecordId)
          ≠ ⟨index.category, index.size + added.length⟩ := by
        intro h_eq
        have := congrArg RecordId.index h_eq
        dsimp only at this
        omega
      rw [if_neg h_ne] at h_add
      exact h_add.trans (h.anchored i other others h_other)
    · -- The new record is at the new anchors.
      rw [List.getElem?_concat_length] at h_other
      cases h_other
      rw [if_pos rfl] at h_add
      refine h_add.trans ((h.others _ ?_).append_left points)
      rintro ⟨-, -, h_lt⟩
      exact Nat.lt_irrefl _ h_lt
    · rw [List.getElem?_eq_none (by rw [List.length_append, List.length_singleton]; omega)]
        at h_other
      cases h_other
  · intro id h_id
    rw [List.length_append, List.length_singleton] at h_id
    have h_add := anchorsAt_add grown record points id
    have h_ne : id ≠ grown.nextId := by
      rw [h_next]
      rintro rfl
      exact h_id ⟨rfl, Nat.le_add_right .., by dsimp only; omega⟩
    rw [if_neg h_ne] at h_add
    refine h_add.trans (h.others id ?_)
    rintro ⟨h_category, h_le, h_lt⟩
    exact h_id ⟨h_category, h_le, by omega⟩

end Grown

/-! ## Soundness -/

/-- Every anchor is one of a stored record.  An index that is built by its operations is
    sound. -/
def Sound (index : Index) : Prop :=
  ∀ anchor ∈ index.anchors.toList, (index.record? anchor.2).isSome = true

theorem isSome_record?_iff (index : Index) (id : RecordId) :
    (index.record? id).isSome = true ↔ id.category = index.category ∧ id.index < index.size := by
  rw [record?]
  split
  next h_category => simp [h_category, size]
  next h_category => simp [h_category]

section Sound

variable {index grown : Index} {added : List (Bounds Float32 × List Point)}

theorem sound_empty (category : Category) : (empty category).Sound := nofun

theorem Sound.insert (h : index.Sound) {id : RecordId} {point : Point}
    (h_insert : index.insert id point = .ok grown) : grown.Sound := by
  unfold Index.insert at h_insert
  split at h_insert
  · cases h_insert
  split at h_insert
  · cases h_insert
  next h_category h_index =>
    cases h_insert
    intro anchor h_anchor
    refine (isSome_record?_iff _ _).mpr ?_
    rcases PointNode.mem_insertAt h_anchor with rfl | h_old
    · exact ⟨Decidable.not_not.mp h_category, Nat.lt_of_not_le h_index⟩
    · exact (isSome_record?_iff _ _).mp (h anchor h_old)

/-- Records that are added leave the index sound. -/
theorem Grown.sound (h : index.Grown added grown) (h_sound : index.Sound) : grown.Sound := by
  intro anchor h_anchor
  rw [isSome_record?_iff, h.category, h.size_eq]
  by_cases h_new : anchor.2.category = index.category ∧ index.size ≤ anchor.2.index ∧
      anchor.2.index < index.size + added.length
  · exact ⟨h_new.1, h_new.2.2⟩
  · -- An anchor of no new record was there before.
    have h_old := (h.others anchor.2 h_new).mem_iff.mp (mem_anchorsAt.mpr h_anchor)
    have h_record := (isSome_record?_iff _ _).mp (h_sound anchor (mem_anchorsAt.mp h_old))
    exact ⟨h_record.1, Nat.lt_add_right _ h_record.2⟩

/-- In a sound index no anchors wait for the next records. -/
theorem Sound.anchorsAt_eq_nil (h : index.Sound) {id : RecordId} (h_id : index.size ≤ id.index) :
    index.anchorsAt id = [] := by
  rw [anchorsAt, PointTree.pointsOf, List.map_eq_nil_iff, List.filter_eq_nil_iff]
  intro anchor h_anchor h_eq
  have h_record := (isSome_record?_iff _ _).mp (h anchor h_anchor)
  rw [of_decide_eq_true h_eq] at h_record
  exact absurd h_record.2 (Nat.not_lt.mpr h_id)

/-- A record that is added to a sound index has its own anchors and no others. -/
theorem Grown.anchorsAt_perm (h : index.Grown added grown) (h_sound : index.Sound) {i : Nat}
    {record : Bounds Float32} {points : List Point} (h_i : added[i]? = some (record, points)) :
    (grown.anchorsAt ⟨index.category, index.size + i⟩).Perm points := by
  have h_perm := h.anchored i record points h_i
  rwa [h_sound.anchorsAt_eq_nil (Nat.le_add_right ..), List.append_nil] at h_perm

end Sound

end Collision.Index

end Verdure
