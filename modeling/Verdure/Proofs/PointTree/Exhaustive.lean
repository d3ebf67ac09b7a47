/-
  Verdure.Proofs.PointTree.Exhaustive

  What a query finds whatever the comparisons of coordinates and distances say, so that the
  coordinates may be NaN.

  As long as there is room for every point that is still to come, a search takes each point
  that it meets, and passes over a side of a split only if that side is empty.  So a query for
  at least as many points as are stored finds all points, each as often as it is stored
  (`PointTree.closest_perm`).  A query for any number of points finds none that is not
  stored (`PointTree.mem_stored_of_mem_closest`).
-/
import Verdure.Proofs.PointTree.Nearest

namespace Verdure

variable {β : Type}

namespace PointNode

variable {k : Nat} {best : MaxHeap (Neighbour Float32 β)}

/-! ## Queries for as many points as are stored -/

theorem offer_perm (h_room : best.size < k) (n : Neighbour Float32 β) :
    (offer k best n).toList.Perm (n :: best.toList) := by
  rw [offer, if_pos h_room]
  exact MaxHeap.push_perm best n

/-- A side of a split is passed over only if nothing is on it. -/
theorem visit_perm {searched : MaxHeap (Neighbour Float32 β)} {far : List (Neighbour Float32 β)}
    (h_room : best.size + far.length ≤ k) (plane : Float32)
    (h_searched : searched.toList.Perm (far ++ best.toList)) :
    (if reaches k best plane then searched else best).toList.Perm (far ++ best.toList) := by
  split
  next => exact h_searched
  next h_reaches =>
    have h_full : ¬best.size < k := by
      intro h_lt
      simp [reaches, h_lt] at h_reaches
    obtain rfl : far = [] := List.length_eq_zero_iff.mp (by omega)
    exact List.Perm.refl _

/-- A search of the nodes with room for every point of them takes them all. -/
def TakesAll (query : Point) (k : Nat) (node : PointNode Float32 β) : Prop :=
  ∀ best : MaxHeap (Neighbour Float32 β), best.size + node.toList.length ≤ k →
    (node.search query k best).toList.Perm
      (node.toList.map (Neighbour.ofEntry query) ++ best.toList)

/-- A search of both sides of a split, the near one first. -/
theorem TakesAll.both {query : Point} {near far : PointNode Float32 β}
    (h_near : TakesAll query k near) (h_far : TakesAll query k far)
    (best : MaxHeap (Neighbour Float32 β))
    (h_room : best.size + near.toList.length + far.toList.length ≤ k) (plane : Float32) :
    (if reaches k (near.search query k best) plane then
        far.search query k (near.search query k best)
      else near.search query k best).toList.Perm
      (far.toList.map (Neighbour.ofEntry query) ++
        (near.toList.map (Neighbour.ofEntry query) ++ best.toList)) := by
  have h_first := h_near best (by omega)
  have h_size := h_first.length_eq
  rw [MaxHeap.length_toList, List.length_append, List.length_map, MaxHeap.length_toList] at h_size
  -- The far side finds the room that the near one leaves.
  have h_left : (near.search query k best).size + far.toList.length ≤ k := by omega
  have h_far_left : (near.search query k best).size
      + (far.toList.map (Neighbour.ofEntry query)).length ≤ k := by
    rw [List.length_map]
    exact h_left
  have h_visit := visit_perm h_far_left plane (h_far _ h_left)
  exact h_visit.trans (h_first.append_left _)

theorem takesAll (query : Point) (k : Nat) (node : PointNode Float32 β) :
    TakesAll query k node := by
  induction node with
  | empty => exact fun best _ => List.Perm.refl best.toList
  | split p b axis below above ih_below ih_above =>
      intro best h_room
      rw [toList, List.length_cons, List.length_append] at h_room
      have h_offer := offer_perm (show best.size < k by omega) (Neighbour.ofEntry query (p, b))
      have h_size := h_offer.length_eq
      rw [MaxHeap.length_toList, List.length_cons, MaxHeap.length_toList] at h_size
      rw [search, toList, List.map_cons, List.map_append]
      dsimp only
      -- The query is below the split or not; the sides take turns in being near and far.
      split
      next =>
        have h_sides := ih_below.both ih_above
          (offer k best (Neighbour.ofEntry query (p, b))) (by omega)
          ((query.get axis - p.get axis) * (query.get axis - p.get axis))
        refine h_sides.trans (((h_offer.append_left _).append_left _).trans ?_)
        exact (perm_near_far _ _ _ _).symm
      next =>
        have h_sides := ih_above.both ih_below
          (offer k best (Neighbour.ofEntry query (p, b))) (by omega)
          ((query.get axis - p.get axis) * (query.get axis - p.get axis))
        refine h_sides.trans (((h_offer.append_left _).append_left _).trans ?_)
        refine (perm_near_far _ _ _ _).symm.trans ?_
        exact (List.perm_append_comm.cons _).append_right best.toList

/-! ## Queries for any number of points -/

theorem mem_of_mem_offer {n m : Neighbour Float32 β} (h : m ∈ (offer k best n).toList) :
    m = n ∨ m ∈ best.toList := by
  unfold offer at h
  split at h
  next => exact List.mem_cons.mp ((MaxHeap.push_perm best n).mem_iff.mp h)
  next =>
    split at h
    next worst h_max =>
      split at h
      next =>
        refine (List.mem_cons.mp ((MaxHeap.push_perm _ n).mem_iff.mp h)).imp_right fun h_kept => ?_
        exact (MaxHeap.pop_perm h_max).mem_iff.mp (List.mem_cons_of_mem worst h_kept)
      next => exact .inr h
    next => exact .inr h

/-- A search of the nodes finds nothing but points of theirs. -/
def FindsOwn (query : Point) (k : Nat) (node : PointNode Float32 β) : Prop :=
  ∀ (best : MaxHeap (Neighbour Float32 β)) (m : Neighbour Float32 β),
    m ∈ (node.search query k best).toList →
      m ∈ node.toList.map (Neighbour.ofEntry query) ∨ m ∈ best.toList

/-- A search of both sides of a split, the far one if it is reached. -/
theorem FindsOwn.both {query : Point} {near far : PointNode Float32 β}
    (h_near : FindsOwn query k near) (h_far : FindsOwn query k far)
    {best : MaxHeap (Neighbour Float32 β)} {plane : Float32} {m : Neighbour Float32 β}
    (h : m ∈ (if reaches k (near.search query k best) plane then
        far.search query k (near.search query k best)
      else near.search query k best).toList) :
    m ∈ far.toList.map (Neighbour.ofEntry query) ∨
      m ∈ near.toList.map (Neighbour.ofEntry query) ∨ m ∈ best.toList := by
  split at h
  next => exact (h_far _ m h).imp_right (h_near best m)
  next => exact .inr (h_near best m h)

theorem findsOwn (query : Point) (k : Nat) (node : PointNode Float32 β) :
    FindsOwn query k node := by
  induction node with
  | empty => exact fun best m h => .inr h
  | split p b axis below above ih_below ih_above =>
      intro best m h
      rw [toList, List.map_cons, List.map_append, List.mem_cons, List.mem_append]
      have h_offer : m ∈ (offer k best (Neighbour.ofEntry query (p, b))).toList →
          m = Neighbour.ofEntry query (p, b) ∨ m ∈ best.toList := mem_of_mem_offer
      rw [search] at h
      dsimp only at h
      split at h
      next =>
        rcases ih_below.both ih_above h with h | h | h
        · exact .inl (.inr (.inr h))
        · exact .inl (.inr (.inl h))
        · exact (h_offer h).imp_left .inl
      next =>
        rcases ih_above.both ih_below h with h | h | h
        · exact .inl (.inr (.inl h))
        · exact .inl (.inr (.inr h))
        · exact (h_offer h).imp_left .inl

end PointNode

namespace PointTree

/-- A query for at least as many points as are stored finds all of them. -/
theorem closest_perm {tree : PointTree Float32 β} {stored : List (Point × β)}
    (h : tree.Represents stored) {k : Nat} (h_k : stored.length ≤ k) (query : Point) :
    (tree.closest query k).Perm (stored.map (Neighbour.ofEntry query)) := by
  have h_room : (MaxHeap.empty : MaxHeap (Neighbour Float32 β)).size
      + tree.root.toList.length ≤ k := by
    have h_length : tree.root.toList.length = stored.length := h.contents.length_eq
    have h_empty : (MaxHeap.empty : MaxHeap (Neighbour Float32 β)).size = 0 := rfl
    omega
  have h_search := PointNode.takesAll query k tree.root .empty h_room
  have h_empty : (MaxHeap.empty : MaxHeap (Neighbour Float32 β)).toList = [] := rfl
  rw [h_empty, List.append_nil] at h_search
  exact (List.mergeSort_perm _ _).trans (h_search.trans (h.contents.map _))

/-- Whatever a query finds is stored. -/
theorem mem_stored_of_mem_closest {tree : PointTree Float32 β} {query : Point} {k : Nat}
    {n : Neighbour Float32 β} (h : n ∈ tree.closest query k) :
    (n.point, n.value) ∈ tree.toList := by
  rcases PointNode.findsOwn query k tree.root _ n (List.mem_mergeSort.mp h) with h | h
  · obtain ⟨e, h_e, rfl⟩ := List.mem_map.mp h
    exact h_e
  · cases h

end PointTree

end Verdure
