/-
  Verdure.Proofs.Collision.Index

  What a collision index finds.

  A search answers with the first near anchor whose record collides with the candidate
  (`collision?_eq_some_iff`).  If it looks at all anchors, a record that has one cannot be
  missed: no comparison of coordinates or distances has a say in it, and a scan of the records
  comes to the same answer (`collision?_eq_none_iff_scan`).  `Anchored` ties an index to
  the anchors it was given, and says that each of its records has one.
-/
import Verdure.Collision.Index
import Verdure.Proofs.PointTree.Exhaustive

namespace Verdure

namespace PointTree

theorem Represents.foldl_insert {β : Type} {tree : PointTree Float32 β}
    {stored : List (Point × β)} (h : tree.Represents stored) (points : List Point) (value : β) :
    (points.foldl (fun tree point => tree.insert point value) tree).Represents
      ((points.map fun point => (point, value)).reverse ++ stored) := by
  induction points generalizing tree stored with
  | nil => exact h
  | cons point rest ih =>
      have h_rest := ih (h.insert point value)
      rw [List.map_cons, List.reverse_cons, List.append_assoc]
      exact h_rest

end PointTree

namespace Collision.Index

/-! ## Anchors -/

/-- The index holds the given anchors, and each of its records has one of them. -/
structure Anchored (index : Index) (stored : List (Point × RecordId)) : Prop where
  represents : index.anchors.Represents stored
  covered : ∀ i < index.size, ∃ point, (point, ⟨index.category, i⟩) ∈ stored

theorem anchored_empty (category : Category) : (empty category).Anchored [] :=
  ⟨PointTree.represents_empty, fun _ h => absurd h (Nat.not_lt_zero _)⟩

theorem size_add (index : Index) (record : Bounds Float32) (points : List Point) :
    (index.add record points).1.size = index.size + 1 :=
  Array.size_push _

theorem getElem?_records_add (index : Index) (record : Bounds Float32) (points : List Point)
    (i : Nat) :
    (index.add record points).1.records[i]?
      = if i = index.size then some record else index.records[i]? :=
  Array.getElem?_push

/-- A record that is added with an anchor is covered, and so are those before it. -/
theorem Anchored.add {index : Index} {stored : List (Point × RecordId)} (h : index.Anchored stored)
    (record : Bounds Float32) {points : List Point} (h_points : points ≠ []) :
    (index.add record points).1.Anchored
      ((points.map fun point => (point, index.nextId)).reverse ++ stored) := by
  refine ⟨h.represents.foldl_insert points index.nextId, fun i h_i => ?_⟩
  rw [size_add] at h_i
  rcases Nat.eq_or_lt_of_le (Nat.le_of_lt_succ h_i) with rfl | h_old
  · obtain ⟨point, rest, rfl⟩ := List.exists_cons_of_ne_nil h_points
    refine ⟨point, List.mem_append_left _ (List.mem_reverse.mpr ?_)⟩
    exact List.mem_cons_self
  · obtain ⟨point, h_point⟩ := h.covered i h_old
    exact ⟨point, List.mem_append_right _ h_point⟩

/-! ## Collisions -/

theorem record?_eq_some {index : Index} {i : Nat} {record : Bounds Float32}
    (h : index.records[i]? = some record) : index.record? ⟨index.category, i⟩ = some record := by
  rw [record?, if_pos rfl, h]

/-- A record is stored under the id, and the candidate collides with it. -/
def Collides (index : Index) (candidate : Bounds Float32) (epsilon : Float32) (id : RecordId) :
    Prop :=
  ∃ record, index.record? id = some record ∧ candidate.overlaps record epsilon = true

section Search

variable {index : Index} {candidate : Bounds Float32} {query : Point} {k : Nat}
  {epsilon : Float32}

theorem hit?_eq_some_iff {found : RecordId × Float32} {id : RecordId} :
    index.hit? candidate epsilon found = some id ↔
      found.1 = id ∧ index.Collides candidate epsilon found.1 := by
  unfold hit? Collides
  cases index.record? found.1 with
  | none => simp
  | some record => simp [and_comm]

theorem hit?_eq_none_iff {found : RecordId × Float32} :
    index.hit? candidate epsilon found = none ↔ ¬index.Collides candidate epsilon found.1 := by
  rw [Option.eq_none_iff_forall_ne_some]
  constructor
  · intro h_none h_collides
    exact h_none found.1 (hit?_eq_some_iff.mpr ⟨rfl, h_collides⟩)
  · intro h_apart id h_some
    exact h_apart (hit?_eq_some_iff.mp h_some).2

/-- A collision is the first near record that collides. -/
theorem collision?_eq_some_iff {id : RecordId} :
    index.collision? candidate query k epsilon = some id ↔
      ∃ before distance after, index.closest query k = before ++ (id, distance) :: after ∧
        index.Collides candidate epsilon id ∧
        ∀ found ∈ before, ¬index.Collides candidate epsilon found.1 := by
  rw [collision?, List.findSome?_eq_some_iff]
  constructor
  · rintro ⟨before, ⟨found, distance⟩, after, h_nearest, h_hit, h_before⟩
    obtain ⟨rfl, h_collides⟩ := hit?_eq_some_iff.mp h_hit
    exact ⟨before, distance, after, h_nearest, h_collides,
      fun other h_other => hit?_eq_none_iff.mp (h_before other h_other)⟩
  · rintro ⟨before, distance, after, h_nearest, h_collides, h_before⟩
    exact ⟨before, (id, distance), after, h_nearest, hit?_eq_some_iff.mpr ⟨rfl, h_collides⟩,
      fun other h_other => hit?_eq_none_iff.mpr (h_before other h_other)⟩

theorem collision?_eq_none_iff :
    index.collision? candidate query k epsilon = none ↔
      ∀ found ∈ index.closest query k, ¬index.Collides candidate epsilon found.1 := by
  rw [collision?, List.findSome?_eq_none_iff]
  exact forall₂_congr fun found _ => hit?_eq_none_iff

variable {stored : List (Point × RecordId)}

/-- A query for as many anchors as there are finds each of them once. -/
theorem closest_perm (h : index.anchors.Represents stored) (h_k : stored.length ≤ k)
    (query : Point) :
    (index.closest query k).Perm
      (stored.map fun anchor => (anchor.2, anchor.1.distanceSquared query)) := by
  have h_found := (PointTree.closest_perm h h_k query).map fun n => (n.value, n.distanceSquared)
  rw [List.map_map] at h_found
  exact h_found

/-- A record that has one of the anchors collides with the candidate. -/
def ScanHits (index : Index) (anchored : List (Point × RecordId)) (candidate : Bounds Float32)
    (epsilon : Float32) : Prop :=
  ∃ i record, index.records[i]? = some record ∧
    (∃ point, (point, ⟨index.category, i⟩) ∈ anchored) ∧
    candidate.overlaps record epsilon = true

/-- The ids of the anchors lead a search to the records that the scan goes through. -/
theorem scanHits_iff :
    index.ScanHits stored candidate epsilon ↔
      ∃ anchor ∈ stored, index.Collides candidate epsilon anchor.2 := by
  constructor
  · rintro ⟨i, record, h_record, ⟨point, h_anchor⟩, h_overlaps⟩
    exact ⟨_, h_anchor, record, record?_eq_some h_record, h_overlaps⟩
  · rintro ⟨⟨point, category, i⟩, h_anchor, record, h_record, h_overlaps⟩
    rw [record?, Option.ite_none_right_eq_some] at h_record
    obtain ⟨rfl, h_record⟩ := h_record
    exact ⟨i, record, h_record, ⟨point, h_anchor⟩, h_overlaps⟩

/-- A query that looks at all anchors finds a collision exactly if a scan does. -/
theorem collision?_eq_none_iff_scan (h : index.anchors.Represents stored)
    (h_k : stored.length ≤ k) :
    index.collision? candidate query k epsilon = none ↔
      ¬index.ScanHits stored candidate epsilon := by
  rw [collision?_eq_none_iff, scanHits_iff]
  constructor
  · rintro h_apart ⟨anchor, h_anchor, h_collides⟩
    have h_found := (closest_perm h h_k query).mem_iff.mpr (List.mem_map_of_mem h_anchor)
    exact h_apart _ h_found h_collides
  · intro h_apart found h_found h_collides
    obtain ⟨anchor, h_anchor, rfl⟩ :=
      List.mem_map.mp ((closest_perm h h_k query).mem_iff.mp h_found)
    exact h_apart ⟨anchor, h_anchor, h_collides⟩

/-- If every record has an anchor, no collision is found exactly if no record collides. -/
theorem Anchored.collision?_eq_none_iff (h : index.Anchored stored) (h_k : stored.length ≤ k) :
    index.collision? candidate query k epsilon = none ↔
      ∀ (i : Nat) (record : Bounds Float32), index.records[i]? = some record →
        candidate.overlaps record epsilon = false := by
  rw [collision?_eq_none_iff_scan h.represents h_k]
  constructor
  · intro h_scan i record h_record
    obtain ⟨h_i, -⟩ := Array.getElem?_eq_some_iff.mp h_record
    refine Bool.eq_false_iff.mpr fun h_overlaps => h_scan ?_
    exact ⟨i, record, h_record, h.covered i h_i, h_overlaps⟩
  · rintro h_apart ⟨i, record, h_record, -, h_overlaps⟩
    rw [h_apart i record h_record] at h_overlaps
    cases h_overlaps

end Search

end Collision.Index

end Verdure
