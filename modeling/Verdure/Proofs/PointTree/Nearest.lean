/-
  Verdure.Proofs.PointTree.Nearest

  The search for the nearest points finds them.

  `Selects k seen best rest` is the invariant of a search that has dealt with the points
  `seen`: they are the ones kept in the heap and a rest, points are only turned away when
  `k` are kept, and none of the rest is nearer than one that is kept.  A point on offer
  keeps the invariant, and so does passing over the far side of a split, all of whose
  points join the rest at once.
-/
import Verdure.PointTree.Nearest
import Verdure.Proofs.MaxHeap.Order
import Verdure.Proofs.PointTree.Distance
import Verdure.Proofs.PointTree.History

namespace Verdure

open Binary32

variable {β : Type}

namespace Neighbour

/-- A stored point as a query sees it. -/
def ofEntry (query : Point) (e : Point × β) : Neighbour Float32 β :=
  ⟨e.1, e.2, e.1.distanceSquared query⟩

theorem le_trans (a b c : Neighbour Float32 β) (h : a.le b = true) (h' : b.le c = true) :
    a.le c = true :=
  totalLe_trans h h'

theorem le_total (a b : Neighbour Float32 β) : (a.le b || b.le a) = true :=
  totalLe_total _ _

/-- The distance is a number with a clear sign bit. -/
def HasDistance (a : Neighbour Float32 β) : Prop := IsMagnitude a.distanceSquared

theorem HasDistance.le_iff {a b : Neighbour Float32 β} (ha : a.HasDistance)
    (hb : b.HasDistance) : a.le b = true ↔ ordinal a.distanceSquared ≤ ordinal b.distanceSquared :=
  IsMagnitude.totalLe_iff ha hb

theorem HasDistance.le_of_not_lt {a b : Neighbour Float32 β} (ha : a.HasDistance)
    (hb : b.HasDistance) (h : ¬b.distanceSquared < a.distanceSquared) : a.le b = true := by
  rw [ha.le_iff hb]
  exact not_lt.mp (mt (lt_iff_ordinal hb.abs_ordinal_le ha.abs_ordinal_le).mpr h)

theorem HasDistance.le_of_lt {a b : Neighbour Float32 β} (ha : a.HasDistance)
    (hb : b.HasDistance) (h : a.distanceSquared < b.distanceSquared) : a.le b = true := by
  rw [ha.le_iff hb]
  exact ((lt_iff_ordinal ha.abs_ordinal_le hb.abs_ordinal_le).mp h).le

theorem hasDistance_ofEntry {query : Point} (h_query : query.IsFinite) {e : Point × β}
    (h : e.1.IsFinite) : (ofEntry query e).HasDistance :=
  (distanceSquared_spec h h_query).1

end Neighbour

namespace PointNode

/-! ## The invariant -/

/-- The heap keeps the nearest `k` of the points seen so far, and `rest` are the others. -/
structure Selects (k : Nat) (seen : List (Neighbour Float32 β))
    (best : MaxHeap (Neighbour Float32 β)) (rest : List (Neighbour Float32 β)) : Prop where
  isHeap : best.IsHeap Neighbour.le
  contents : seen.Perm (best.toList ++ rest)
  distances : ∀ a ∈ seen, a.HasDistance
  size_le : best.size ≤ k
  full : rest ≠ [] → best.size = k
  nearer : ∀ a ∈ best.toList, ∀ b ∈ rest, a.le b = true

theorem selects_empty (k : Nat) : Selects k ([] : List (Neighbour Float32 β)) .empty [] := by
  refine ⟨MaxHeap.isHeap_empty, List.Perm.refl _, ?_, Nat.zero_le k, ?_, ?_⟩
  · exact fun a ha => absurd ha List.not_mem_nil
  · exact fun h => absurd rfl h
  · exact fun a ha => absurd ha List.not_mem_nil

variable {k : Nat} {seen : List (Neighbour Float32 β)} {best : MaxHeap (Neighbour Float32 β)}
  {rest : List (Neighbour Float32 β)}

theorem Selects.hasDistance_of_mem_best (h : Selects k seen best rest) {a : Neighbour Float32 β}
    (ha : a ∈ best.toList) : a.HasDistance :=
  h.distances a (h.contents.mem_iff.mpr (List.mem_append_left rest ha))

theorem Selects.perm (h : Selects k seen best rest) {seen' : List (Neighbour Float32 β)}
    (h_perm : seen'.Perm seen) : Selects k seen' best rest :=
  ⟨h.isHeap, h_perm.trans h.contents, fun a ha => h.distances a (h_perm.mem_iff.mp ha),
    h.size_le, h.full, h.nearer⟩

theorem mem_of_max? {m : Neighbour Float32 β} (h : best.max? = some m) : m ∈ best.toList :=
  Array.mem_toList_iff.mpr (Array.mem_of_getElem? h)

theorem Selects.le_max (h : Selects k seen best rest) {m a : Neighbour Float32 β}
    (h_max : best.max? = some m) (ha : a ∈ best.toList) : a.le m = true :=
  MaxHeap.le_max Neighbour.le_trans Neighbour.le_total h.isHeap h_max ha

/-- Points that no kept one is farther than can be turned away when `k` are kept. -/
theorem Selects.turnAway (h : Selects k seen best rest) (h_full : best.size = k)
    (more : List (Neighbour Float32 β)) (h_more : ∀ b ∈ more, b.HasDistance)
    (h_nearer : ∀ m, best.max? = some m → ∀ b ∈ more, m.le b = true) :
    Selects k (more ++ seen) best (more ++ rest) := by
  refine ⟨h.isHeap, ?_, ?_, h.size_le, fun _ => h_full, ?_⟩
  · exact (h.contents.append_left more).trans (List.perm_append_comm_assoc more best.toList rest)
  · intro a ha
    rcases List.mem_append.mp ha with ha | ha
    · exact h_more a ha
    · exact h.distances a ha
  · intro a ha b hb
    rcases List.mem_append.mp hb with hb | hb
    · -- A kept point is not farther than the farthest one, nor is that than `b`.
      cases h_max : best.max? with
      | none =>
          rw [MaxHeap.max?_eq_none_iff, ← MaxHeap.length_toList, List.length_eq_zero_iff] at h_max
          rw [h_max] at ha
          exact absurd ha List.not_mem_nil
      | some m => exact Neighbour.le_trans _ _ _ (h.le_max h_max ha) (h_nearer m h_max b hb)
    · exact h.nearer a ha b hb

theorem Selects.push (h : Selects k seen best rest) (h_room : best.size < k)
    {n : Neighbour Float32 β} (hn : n.HasDistance) :
    Selects k (n :: seen) (best.push Neighbour.le n) [] := by
  -- While there is room, no point has been turned away.
  have h_rest : rest = [] := by
    by_contra h_ne
    exact absurd (h.full h_ne) h_room.ne
  have h_contents := h.contents
  rw [h_rest, List.append_nil] at h_contents
  refine ⟨MaxHeap.isHeap_push Neighbour.le_trans Neighbour.le_total h.isHeap n, ?_, ?_, ?_, ?_, ?_⟩
  · rw [List.append_nil]
    exact (h_contents.cons n).trans (MaxHeap.push_perm best n).symm
  · exact List.forall_mem_cons.mpr ⟨hn, h.distances⟩
  · rw [MaxHeap.size_push]
    exact h_room
  · exact fun h_ne => absurd rfl h_ne
  · exact fun a _ b hb => absurd hb List.not_mem_nil

theorem Selects.replace (h : Selects k seen best rest) (h_full : best.size = k)
    {n m : Neighbour Float32 β} (hn : n.HasDistance) (h_max : best.max? = some m)
    (h_lt : n.distanceSquared < m.distanceSquared) :
    Selects k (n :: seen) ((best.pop Neighbour.le).push Neighbour.le n) (m :: rest) := by
  have h_m := mem_of_max? h_max
  have h_pop := @MaxHeap.pop_perm _ Neighbour.le _ _ h_max
  have h_push := @MaxHeap.push_perm _ Neighbour.le (best.pop Neighbour.le) n
  have h_size : ((best.pop Neighbour.le).push Neighbour.le n).size = k := by
    rw [MaxHeap.size_push, MaxHeap.size_pop h_max, h_full]
  refine ⟨?_, ?_, ?_, h_size.le, fun _ => h_size, ?_⟩
  · have h_heap := MaxHeap.isHeap_pop Neighbour.le_trans Neighbour.le_total h.isHeap
    exact MaxHeap.isHeap_push Neighbour.le_trans Neighbour.le_total h_heap n
  · -- The farthest point moves from the heap to the rest.
    have h_seen := h.contents.trans (h_pop.symm.append_right rest)
    have h_moved := h_seen.trans List.perm_middle.symm
    exact (h_moved.cons n).trans (h_push.symm.append_right (m :: rest))
  · exact List.forall_mem_cons.mpr ⟨hn, h.distances⟩
  · intro a ha b hb
    have h_m_b : ∀ b ∈ m :: rest, m.le b = true := by
      refine List.forall_mem_cons.mpr ⟨h.le_max h_max h_m, ?_⟩
      exact fun b hb => h.nearer m h_m b hb
    rcases List.mem_cons.mp (h_push.mem_iff.mp ha) with rfl | ha
    · have h_n := hn.le_of_lt (h.hasDistance_of_mem_best h_m) h_lt
      exact Neighbour.le_trans _ _ _ h_n (h_m_b b hb)
    · have h_a := h.le_max h_max (h_pop.mem_iff.mp (List.mem_cons_of_mem m ha))
      exact Neighbour.le_trans _ _ _ h_a (h_m_b b hb)

/-- A point on offer keeps the invariant. -/
theorem Selects.offer (h : Selects k seen best rest) {n : Neighbour Float32 β}
    (hn : n.HasDistance) : ∃ rest', Selects k (n :: seen) (offer k best n) rest' := by
  unfold PointNode.offer
  -- There is room, or the newcomer takes the place of the worst, or it is turned away.
  split
  next h_room => exact ⟨[], h.push h_room hn⟩
  next h_room =>
    have h_full : best.size = k := le_antisymm h.size_le (not_lt.mp h_room)
    have h_away : (∀ m, best.max? = some m → m.le n = true) →
        Selects k (n :: seen) best (n :: rest) := by
      intro h_le
      refine h.turnAway h_full [n] ?_ ?_
      · exact List.forall_mem_singleton.mpr hn
      · exact fun m h_max => List.forall_mem_singleton.mpr (h_le m h_max)
    split
    next m h_max =>
      split
      next h_lt => exact ⟨m :: rest, h.replace h_full hn h_max h_lt⟩
      next h_lt =>
        refine ⟨n :: rest, h_away ?_⟩
        intro m' h_max'
        obtain rfl : m = m' := Option.some_inj.mp (h_max.symm.trans h_max')
        exact (h.hasDistance_of_mem_best (mem_of_max? h_max)).le_of_not_lt hn h_lt
    next h_max =>
      refine ⟨n :: rest, h_away ?_⟩
      intro m h_max'
      rw [h_max] at h_max'
      exact absurd h_max' (by simp)

/-- So does passing over a part of space that does not reach into the kept points. -/
theorem Selects.passOver (h : Selects k seen best rest) {plane : Float32}
    (h_plane : IsMagnitude plane) (h_reaches : reaches k best plane = false)
    {beyond : List (Neighbour Float32 β)} (h_beyond : ∀ b ∈ beyond,
      b.HasDistance ∧ ordinal plane ≤ ordinal b.distanceSquared) :
    Selects k (beyond ++ seen) best (beyond ++ rest) := by
  unfold reaches at h_reaches
  rw [Bool.or_eq_false_iff, decide_eq_false_iff_not] at h_reaches
  obtain ⟨h_room, h_near⟩ := h_reaches
  have h_full : best.size = k := le_antisymm h.size_le (not_lt.mp h_room)
  -- No kept point is farther than the plane, and no point beyond is nearer than it.
  refine h.turnAway h_full beyond (fun b hb => (h_beyond b hb).1) ?_
  intro m h_max b hb
  obtain ⟨h_b, h_far⟩ := h_beyond b hb
  have h_m := h.hasDistance_of_mem_best (mem_of_max? h_max)
  rw [h_max] at h_near
  have h_not_lt : ¬plane < m.distanceSquared := of_decide_eq_false h_near
  rw [lt_iff_ordinal h_plane.abs_ordinal_le h_m.abs_ordinal_le, not_lt] at h_not_lt
  exact (h_m.le_iff h_b).mpr (h_not_lt.trans h_far)

/-! ## The search -/

theorem Selects.visit (h : Selects k seen best rest) {plane : Float32}
    (h_plane : IsMagnitude plane) {far : List (Neighbour Float32 β)}
    {searched : MaxHeap (Neighbour Float32 β)}
    (h_far : ∀ b ∈ far, b.HasDistance ∧ ordinal plane ≤ ordinal b.distanceSquared)
    (h_searched : ∃ rest', Selects k (far ++ seen) searched rest') :
    ∃ rest', Selects k (far ++ seen) (if reaches k best plane then searched else best) rest' := by
  split
  · exact h_searched
  next h_reaches =>
    exact ⟨far ++ rest, h.passOver h_plane (Bool.eq_false_iff.mpr h_reaches) h_far⟩

theorem perm_near_far (n : Neighbour Float32 β) (near far seen : List (Neighbour Float32 β)) :
    (n :: (near ++ far) ++ seen).Perm (far ++ (near ++ n :: seen)) := by
  have h_near : (near ++ n :: seen).Perm (n :: (near ++ seen)) := List.perm_middle
  have h_far : (far ++ n :: (near ++ seen)).Perm (n :: (far ++ (near ++ seen))) :=
    List.perm_middle
  refine List.Perm.trans ?_ ((h_near.append_left far).trans h_far).symm
  rw [List.cons_append, ← List.append_assoc]
  exact (List.perm_append_comm.append_right seen).cons n

/-- The points on the far side of a split are not nearer than its plane. -/
theorem forall_beyond {query p : Point} (h_query : query.IsFinite) (h_p : p.IsFinite)
    (axis : Axis) {far : List (Point × β)} (h_finite : ∀ e ∈ far, e.1.IsFinite)
    (h_side : ∀ e ∈ far, query.get axis - p.get axis < 0.0 ∧ ¬e.1.get axis < p.get axis ∨
      ¬query.get axis - p.get axis < 0.0 ∧ e.1.get axis < p.get axis) :
    ∀ n ∈ far.map (Neighbour.ofEntry query), n.HasDistance ∧
      ordinal ((query.get axis - p.get axis) * (query.get axis - p.get axis))
        ≤ ordinal n.distanceSquared := by
  intro n hn
  obtain ⟨e, he, rfl⟩ := List.mem_map.mp hn
  have h_e := h_finite e he
  refine ⟨Neighbour.hasDistance_ofEntry h_query h_e, ?_⟩
  exact ordinal_plane_le_distanceSquared h_query h_p h_e axis (h_side e he)

/-- A search of well-formed nodes deals with all of their points. -/
theorem Selects.search {query : Point} (h_query : query.IsFinite) {node : PointNode Float32 β}
    {depth : Nat} (h_ordered : node.Ordered depth)
    (h_finite : ∀ e ∈ node.toList, e.1.IsFinite) (h : Selects k seen best rest) :
    ∃ rest', Selects k (node.toList.map (Neighbour.ofEntry query) ++ seen)
      (node.search query k best) rest' := by
  induction node generalizing depth seen best rest with
  | empty => exact ⟨rest, h⟩
  | split p b axis below above ih_below ih_above =>
      obtain ⟨_, h_lt, h_not_lt, h_below, h_above⟩ := h_ordered
      obtain ⟨h_p, h_children⟩ := List.forall_mem_cons.mp h_finite
      have h_finite_below : ∀ e ∈ below.toList, e.1.IsFinite :=
        fun e he => h_children e (List.mem_append_left _ he)
      have h_finite_above : ∀ e ∈ above.toList, e.1.IsFinite :=
        fun e he => h_children e (List.mem_append_right _ he)
      have h_plane := isMagnitude_sub_mul_self h_query h_p axis
      have h_n := Neighbour.hasDistance_ofEntry (e := (p, b)) h_query h_p
      obtain ⟨rest₁, h_offer⟩ := h.offer h_n
      rw [PointNode.search, PointNode.toList, List.map_cons, List.map_append]
      dsimp only
      -- The query is below the split or not; the sides take turns in being near and far.
      split
      next h_side =>
        obtain ⟨rest₂, h_near⟩ := ih_below h_below h_finite_below h_offer
        have h_beyond := forall_beyond h_query h_p axis h_finite_above
          (fun e he => .inl ⟨h_side, h_not_lt e he⟩)
        obtain ⟨rest₃, h_far⟩ := h_near.visit h_plane h_beyond
          (ih_above h_above h_finite_above h_near)
        exact ⟨rest₃, h_far.perm (perm_near_far _ _ _ _)⟩
      next h_side =>
        obtain ⟨rest₂, h_near⟩ := ih_above h_above h_finite_above h_offer
        have h_beyond := forall_beyond h_query h_p axis h_finite_below
          (fun e he => .inr ⟨h_side, h_lt e he⟩)
        obtain ⟨rest₃, h_far⟩ := h_near.visit h_plane h_beyond
          (ih_below h_below h_finite_below h_near)
        refine ⟨rest₃, h_far.perm (List.Perm.trans ?_ (perm_near_far _ _ _ _))⟩
        exact (List.perm_append_comm.cons _).append_right seen

end PointNode

namespace PointTree

/-! ## The points found -/

theorem pairwise_mergeSort_totalLe (l : List Float32) :
    (l.mergeSort totalLe).Pairwise fun a b => totalLe a b :=
  @List.pairwise_mergeSort _ totalLe (fun _ _ _ => totalLe_trans) totalLe_total l

/-- A sorted list is the sorting of any list with the same numbers: numbers that sorting does
    not tell apart are equal. -/
theorem mergeSort_totalLe_eq {l l' : List Float32} (h_sorted : l.Pairwise fun a b => totalLe a b)
    (h : l.Perm l') : l = l'.mergeSort totalLe := by
  have h_perm := h.trans (List.mergeSort_perm l' totalLe).symm
  refine List.Perm.eq_of_pairwise ?_ h_sorted (pairwise_mergeSort_totalLe l') h_perm
  intro a b _ _ h_ab h_ba
  have h_le := of_decide_eq_true h_ab
  have h_ge := of_decide_eq_true h_ba
  exact orderKey_injective (le_antisymm h_le h_ge)

theorem mergeSort_totalLe_congr {l l' : List Float32} (h : l.Perm l') :
    l.mergeSort totalLe = l'.mergeSort totalLe :=
  mergeSort_totalLe_eq (pairwise_mergeSort_totalLe l) ((List.mergeSort_perm l totalLe).trans h)

theorem exists_closest {tree : PointTree Float32 β} {stored : List (Point × β)}
    (h : tree.Represents stored) {query : Point} (h_query : query.IsFinite)
    (h_stored : ∀ e ∈ stored, e.1.IsFinite) (k : Nat) :
    ∃ best rest, tree.closest query k = best.toList.mergeSort Neighbour.le ∧
      PointNode.Selects k (stored.map (Neighbour.ofEntry query)) best rest := by
  have h_finite : ∀ e ∈ tree.toList, e.1.IsFinite :=
    fun e he => h_stored e (h.contents.mem_iff.mp he)
  obtain ⟨rest, h_search⟩ :=
    (PointNode.selects_empty k).search h_query h.ordered h_finite
  rw [List.append_nil] at h_search
  exact ⟨_, rest, rfl, h_search.perm (h.contents.map _).symm⟩

variable {tree : PointTree Float32 β} {stored : List (Point × β)} {query : Point}

theorem length_closest (h : tree.Represents stored) (h_query : query.IsFinite)
    (h_stored : ∀ e ∈ stored, e.1.IsFinite) (k : Nat) :
    (tree.closest query k).length = min k tree.size := by
  obtain ⟨best, rest, h_found, h_selects⟩ := exists_closest h h_query h_stored k
  have h_length := h_selects.contents.length_eq
  rw [List.length_map, List.length_append, MaxHeap.length_toList, ← h.size] at h_length
  rw [h_found, List.length_mergeSort, MaxHeap.length_toList]
  have h_size := h_selects.size_le
  by_cases h_rest : rest = []
  · rw [h_rest, List.length_nil] at h_length
    omega
  · have h_full := h_selects.full h_rest
    omega

theorem closest_subperm (h : tree.Represents stored) (h_query : query.IsFinite)
    (h_stored : ∀ e ∈ stored, e.1.IsFinite) (k : Nat) :
    (tree.closest query k).Subperm (stored.map (Neighbour.ofEntry query)) := by
  obtain ⟨best, rest, h_found, h_selects⟩ := exists_closest h h_query h_stored k
  have h_best : best.toList.Subperm (best.toList ++ rest) :=
    (List.sublist_append_left _ _).subperm
  rw [h_found, (List.mergeSort_perm _ _).subperm_right]
  exact h_best.trans h_selects.contents.symm.subperm

theorem closest_pairwise (h : tree.Represents stored) (h_query : query.IsFinite)
    (h_stored : ∀ e ∈ stored, e.1.IsFinite) (k : Nat) :
    (tree.closest query k).Pairwise fun a b => a.distanceSquared ≤ b.distanceSquared := by
  have h_found := closest_subperm h h_query h_stored k
  have h_distance : ∀ n ∈ tree.closest query k, n.HasDistance := by
    intro n hn
    obtain ⟨e, he, rfl⟩ := List.mem_map.mp (h_found.subset hn)
    exact Neighbour.hasDistance_ofEntry h_query (h_stored e he)
  obtain ⟨best, rest, h_eq, _⟩ := exists_closest h h_query h_stored k
  have h_sorted := List.pairwise_mergeSort Neighbour.le_trans Neighbour.le_total best.toList
  rw [← h_eq] at h_sorted
  refine h_sorted.imp_of_mem ?_
  intro a b ha hb h_le
  have h_a := h_distance a ha
  have h_b := h_distance b hb
  rw [h_a.le_iff h_b] at h_le
  exact (le_iff_ordinal h_a.abs_ordinal_le h_b.abs_ordinal_le).mpr h_le

/-- The distances found are the least ones of a scan of all points. -/
theorem distances_closest (h : tree.Represents stored) (h_query : query.IsFinite)
    (h_stored : ∀ e ∈ stored, e.1.IsFinite) (k : Nat) :
    (tree.closest query k).map (·.distanceSquared)
      = ((stored.map fun e => e.1.distanceSquared query).mergeSort totalLe).take k := by
  obtain ⟨best, rest, h_found, h_selects⟩ := exists_closest h h_query h_stored k
  rw [h_found]
  -- The kept points and the rest, each sorted, are a sorted list of all points.
  have h_sorted : (best.toList.mergeSort Neighbour.le ++ rest.mergeSort Neighbour.le).Pairwise
      fun a b => a.le b = true := by
    refine List.pairwise_append.mpr ⟨?_, ?_, ?_⟩
    · exact List.pairwise_mergeSort Neighbour.le_trans Neighbour.le_total _
    · exact List.pairwise_mergeSort Neighbour.le_trans Neighbour.le_total _
    · intro a ha b hb
      exact h_selects.nearer a (List.mem_mergeSort.mp ha) b (List.mem_mergeSort.mp hb)
  have h_perm : ((best.toList.mergeSort Neighbour.le ++ rest.mergeSort Neighbour.le).map
      (·.distanceSquared)).Perm (stored.map fun e => e.1.distanceSquared query) := by
    have h_all := ((List.mergeSort_perm best.toList Neighbour.le).append
      (List.mergeSort_perm rest Neighbour.le)).trans h_selects.contents.symm
    have h_map := h_all.map (·.distanceSquared)
    rw [List.map_map] at h_map
    exact h_map
  have h_eq := mergeSort_totalLe_eq (List.pairwise_map.mpr h_sorted) h_perm
  rw [← h_eq, List.map_append]
  have h_length : ((best.toList.mergeSort Neighbour.le).map (·.distanceSquared)).length
      = best.size := by
    rw [List.length_map, List.length_mergeSort, MaxHeap.length_toList]
  -- A cut after `k` distances falls behind the kept points, or leaves out nothing.
  by_cases h_rest : rest = []
  · rw [h_rest, List.mergeSort_nil, List.map_nil, List.append_nil,
      List.take_of_length_le (h_length.trans_le h_selects.size_le)]
  · rw [List.take_left' (h_length.trans (h_selects.full h_rest))]

/-- **A query finds the nearest points.**  It is answered if its heap can be given room, and
    refused if not.  The answer has as many points as asked for and stored, in ascending order
    of their distance, each of them as often as it is stored at most, at the distances that a
    scan of all points gives.  So the distances depend on the points alone, not on the order
    they came in. -/
theorem kNearest_ofHistory (edits : List (Edit Float32 β)) (query : Point) (k : Nat)
    (h_query : query.IsFinite) (h_stored : ∀ e ∈ PointTree.stored edits, e.1.IsFinite) :
    ∃ found, (ofHistory edits).kNearest query k
        = (if HasRoom k then .ok found else .error .capacityOverflow) ∧
      found.length = min k (ofHistory edits).size ∧
      (ofHistory edits).size = (PointTree.stored edits).length ∧
      found.Pairwise (fun a b => a.distanceSquared ≤ b.distanceSquared) ∧
      (found.map fun n => (n.point, n.value)).Subperm (PointTree.stored edits) ∧
      (∀ n ∈ found, n.distanceSquared = n.point.distanceSquared query) ∧
      found.map (·.distanceSquared)
        = (((PointTree.stored edits).map fun e => e.1.distanceSquared query).mergeSort
            totalLe).take k ∧
      ∀ edits' : List (Edit Float32 β),
        ((PointTree.stored edits').map Prod.fst).Perm ((PointTree.stored edits).map Prod.fst) →
        ∃ found', (ofHistory edits').kNearest query k
            = (if HasRoom k then .ok found' else .error .capacityOverflow) ∧
          found'.map (·.distanceSquared) = found.map (·.distanceSquared) := by
  have h_tree := represents_ofHistory edits
  have h_found := closest_subperm h_tree h_query h_stored k
  refine ⟨_, kNearest_eq _ query k, length_closest h_tree h_query h_stored k, h_tree.size,
    closest_pairwise h_tree h_query h_stored k, ?_, ?_,
    distances_closest h_tree h_query h_stored k, ?_⟩
  · obtain ⟨l, h_perm, h_sub⟩ := h_found
    have h_entries := h_sub.map fun n => (n.point, n.value)
    have h_id : (PointTree.stored edits).map ((fun n => (n.point, n.value)) ∘
        Neighbour.ofEntry query) = PointTree.stored edits := List.map_id _
    rw [List.map_map, h_id] at h_entries
    exact ⟨_, h_perm.map _, h_entries⟩
  · intro n hn
    obtain ⟨e, _, rfl⟩ := List.mem_map.mp (h_found.subset hn)
    rfl
  · intro edits' h_points
    -- The same points have the same distances, so both trees answer as the same scan.
    have h_stored' : ∀ e ∈ PointTree.stored edits', e.1.IsFinite := by
      intro e he
      obtain ⟨e', he', h_eq⟩ := List.mem_map.mp (h_points.subset (List.mem_map_of_mem he))
      rw [← h_eq]
      exact h_stored e' he'
    have h_scan := h_points.map (·.distanceSquared query)
    rw [List.map_map, List.map_map] at h_scan
    refine ⟨_, kNearest_eq _ query k, ?_⟩
    rw [distances_closest (represents_ofHistory edits') h_query h_stored' k,
      distances_closest h_tree h_query h_stored k]
    exact congrArg (List.take k) (mergeSort_totalLe_congr h_scan)

theorem kNearest_ofHistory_batch_and_insert :
    ∃ found, (ofHistory [.insert ⟨9.0, 9.0, 9.0⟩ 0, .clear,
        .build [(⟨1.0, 2.0, 0.5⟩, 1), (⟨-3.0, 2.0, 0.0⟩, 2), (⟨1.0, 2.0, 0.5⟩, 3)],
        .insert ⟨0.0, -1.0, 4.0⟩ 4]).kNearest (⟨0.0, 0.0, 0.0⟩ : Point) 2 = .ok found ∧
      found.map (·.distanceSquared) = [5.25, 5.25] := by
  have h_query : Vec3.IsFinite (⟨0.0, 0.0, 0.0⟩ : Point) := by
    intro axis
    cases axis <;> decide
  have h_stored : ∀ e ∈ PointTree.stored ([.insert ⟨9.0, 9.0, 9.0⟩ 0, .clear,
      .build [(⟨1.0, 2.0, 0.5⟩, 1), (⟨-3.0, 2.0, 0.0⟩, 2), (⟨1.0, 2.0, 0.5⟩, 3)],
      .insert ⟨0.0, -1.0, 4.0⟩ 4] : List (Edit Float32 Nat)), e.1.IsFinite := by
    intro e he axis
    simp only [PointTree.stored, Edit.store, List.foldl_cons, List.foldl_nil,
      List.mem_cons, List.not_mem_nil, or_false] at he
    rcases he with rfl | rfl | rfl | rfl <;> cases axis <;> decide
  have h_scan : [5.25, 5.25, 13.0, 17.0] = List.mergeSort
      ([17.0, 5.25, 13.0, 5.25] : List Float32) totalLe :=
    mergeSort_totalLe_eq (by decide) (by decide)
  have h_room : HasRoom 2 := by decide
  obtain ⟨found, h_found, -, -, -, -, -, h_distances, -⟩ :=
    kNearest_ofHistory _ _ 2 h_query h_stored
  rw [if_pos h_room] at h_found
  refine ⟨found, h_found, ?_⟩
  rw [h_distances]
  exact congrArg (List.take 2) h_scan.symm

/-- There is no room for `2 ^ 62` neighbours, so that a query for so many does not find the one
    point that is stored. -/
theorem kNearest_without_room :
    let edits : List (Edit Float32 Nat) := [.insert ⟨1.0, 2.0, 2.0⟩ 7]
    let origin : Point := ⟨0.0, 0.0, 0.0⟩
    origin.IsFinite ∧ (∀ e ∈ PointTree.stored edits, e.1.IsFinite) ∧
      (PointTree.stored edits).length = 1 ∧
      ¬∃ found, (ofHistory edits).kNearest origin (2 ^ 62) = .ok found ∧
        found.length = min (2 ^ 62) (ofHistory edits).size := by
  intro edits origin
  refine ⟨?_, ?_, rfl, ?_⟩
  · intro axis
    cases axis <;> decide
  · intro e h_e axis
    obtain rfl := List.mem_singleton.mp h_e
    cases axis <;> decide
  · rintro ⟨found, h_found, -⟩
    rw [kNearest_eq, if_neg (by decide)] at h_found
    cases h_found

end PointTree

end Verdure
