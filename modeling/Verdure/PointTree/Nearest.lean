/-
  Verdure.PointTree.Nearest

  The points of a tree nearest to a query.  A search keeps the best points found so far in
  a heap, farthest first, looks at the side of each split that the query is on before the
  other one, and looks at the other side only if it can hold a better point.

  Room in the heap is reserved before the search, for one point more than is asked for,
  however few are stored.  `closest` is the search of a heap that has its room, and `kNearest`
  the query, which is refused if there cannot be so much room.
-/
import Verdure.MaxHeap
import Verdure.PointTree.Basic

namespace Verdure

/-- A stored point found by a query. -/
structure Neighbour (α β : Type) where
  point : Vec3 α
  value : β
  /-- The square of the distance to the query. -/
  distanceSquared : α

namespace Neighbour

/-- The bytes that a neighbour takes in a heap: 12 for the point, 8 for a reference to the
    value and 4 for the distance. -/
def width : Nat := 24

variable {α β : Type} [Scalar α]

/-- Neighbours in the order of their distance. -/
@[inline] def le (a b : Neighbour α β) : Bool :=
  Scalar.totalLe a.distanceSquared b.distanceSquared

end Neighbour

namespace PointNode

variable {α β : Type} [Scalar α]

/-- The best points with one more on offer, of which at most `k` are kept: it is taken if
    there is room, and else if it is nearer than the farthest, which then goes. -/
@[specialize] def offer (k : Nat) (best : MaxHeap (Neighbour α β)) (n : Neighbour α β) :
    MaxHeap (Neighbour α β) :=
  if best.size < k then best.push Neighbour.le n
  else
    match best.max? with
    | some worst =>
        if n.distanceSquared < worst.distanceSquared then
          (best.pop Neighbour.le).push Neighbour.le n
        else best
    | none => best

/-- A part of space beyond a plane can hold one of the best `k` points: there is room, or
    the plane is nearer than the farthest point. -/
@[specialize] def reaches (k : Nat) (best : MaxHeap (Neighbour α β)) (planeSquared : α) : Bool :=
  best.size < k ||
    match best.max? with
    | some worst => planeSquared < worst.distanceSquared
    | none => false

/-- The best points after a search of the nodes. -/
@[specialize] def search (query : Vec3 α) (k : Nat) :
    PointNode α β → MaxHeap (Neighbour α β) → MaxHeap (Neighbour α β)
  | .empty, best => best
  | .split point value axis below above, best =>
      let best := offer k best ⟨point, value, point.distanceSquared query⟩
      let offset := query.get axis - point.get axis
      if offset < 0.0 then
        let best := search query k below best
        if reaches k best (offset * offset) then search query k above best else best
      else
        let best := search query k above best
        if reaches k best (offset * offset) then search query k below best else best

/-- A search for no points finds none. -/
theorem search_zero (query : Vec3 α) (node : PointNode α β) :
    node.search query 0 .empty = .empty := by
  induction node with
  | empty => rfl
  | split p b axis below above ih_below ih_above =>
      have h_offer : offer 0 .empty ⟨p, b, p.distanceSquared query⟩
          = (.empty : MaxHeap (Neighbour α β)) := rfl
      have h_reaches : ∀ plane : α, reaches 0 (.empty : MaxHeap (Neighbour α β)) plane = false :=
        fun _ => rfl
      rw [search, h_offer]
      dsimp only
      simp only [ih_below, ih_above, h_reaches, Bool.false_eq_true, ite_self]

end PointNode

namespace PointTree

/-- The heap of a query for `k` points can be given its room.  The largest count of all, which
    has no successor to reserve, has no room. -/
def HasRoom (k : Nat) : Prop := (k + 1) * Neighbour.width ≤ MaxHeap.maxAllocation

instance (k : Nat) : Decidable (HasRoom k) := inferInstanceAs (Decidable (_ ≤ _))

variable {α β : Type} [Scalar α]

/-- The best `k` points after a search that starts with those of a heap, in ascending order of
    their distance. -/
@[specialize] def gather (tree : PointTree α β) (query : Vec3 α) (k : Nat)
    (best : MaxHeap (Neighbour α β)) : List (Neighbour α β) :=
  (tree.root.search query k best).elements.toList.mergeSort Neighbour.le

/-- The points nearest to a query in ascending order of their distance, `k` of them if there
    are so many. -/
@[specialize] def closest (tree : PointTree α β) (query : Vec3 α) (k : Nat) :
    List (Neighbour α β) :=
  tree.gather query k .empty

/-- The answer to a query for the `k` nearest points.  If none is asked for, nothing is reserved
    and nothing is searched. -/
@[specialize] def kNearest (tree : PointTree α β) (query : Vec3 α) (k : Nat) :
    Except NoRoom (List (Neighbour α β)) :=
  if k = 0 then .ok []
  else
    match MaxHeap.withCapacity Neighbour.width (k + 1) with
    | .ok best => .ok (tree.gather query k best)
    | .error e => .error e

theorem closest_zero (tree : PointTree α β) (query : Vec3 α) : tree.closest query 0 = [] := by
  rw [closest, gather, PointNode.search_zero]
  exact List.mergeSort_nil

/-- A query is answered by the closest points if its heap has room, and refused if not. -/
theorem kNearest_eq (tree : PointTree α β) (query : Vec3 α) (k : Nat) :
    tree.kNearest query k
      = if HasRoom k then .ok (tree.closest query k) else .error .capacityOverflow := by
  have h_reserve : (MaxHeap.withCapacity Neighbour.width (k + 1)
      : Except NoRoom (MaxHeap (Neighbour α β)))
        = if HasRoom k then .ok .empty else .error .capacityOverflow := rfl
  by_cases h_zero : k = 0
  · subst h_zero
    rw [kNearest, if_pos rfl, if_pos (by decide), closest_zero]
  · rw [kNearest, if_neg h_zero, h_reserve]
    by_cases h_room : HasRoom k
    · rw [if_pos h_room, if_pos h_room]
      rfl
    · rw [if_neg h_room, if_neg h_room]

/-- The point nearest to a query.  There is always room for it. -/
@[specialize] def nearest? (tree : PointTree α β) (query : Vec3 α) : Option (Neighbour α β) :=
  match tree.kNearest query 1 with
  | .ok found => found.head?
  | .error _ => none

end PointTree

end Verdure
