/-
  Verdure.MaxHeap

  Binary heaps with a greatest element at the root, in an array: the children of index
  `i` are at `2 i + 1` and `2 i + 2`.

  The order of the elements in the array is fixed by the history of the heap, so it is
  part of the definition.  `push` lets the new element rise until its parent is not
  smaller.  `pop` puts the last element at the root, sends it down along the larger
  children to the bottom, and lets it rise from there.

  A heap may be asked to reserve room for its elements before there are any.  An allocation
  has a greatest size, and room beyond it is refused.
-/

namespace Verdure

/-- Why no room can be reserved. -/
inductive NoRoom where
  /-- No allocation is as large. -/
  | capacityOverflow
  deriving DecidableEq, Repr

/-- A binary heap, greatest element first. -/
structure MaxHeap (γ : Type) where
  elements : Array γ

namespace MaxHeap

variable {γ : Type}

/-- The heap with no elements. -/
def empty : MaxHeap γ := ⟨#[]⟩

/-- The bytes of the largest allocation. -/
def maxAllocation : Nat := Nat.pow 2 63 - 1

/-- The heap with no elements, with room for `capacity` elements of `width` bytes. -/
def withCapacity (width capacity : Nat) : Except NoRoom (MaxHeap γ) :=
  if capacity * width ≤ maxAllocation then .ok empty else .error .capacityOverflow

/-- The number of elements. -/
@[inline] def size (heap : MaxHeap γ) : Nat := heap.elements.size

/-- The greatest element. -/
@[inline] def max? (heap : MaxHeap γ) : Option γ := heap.elements[0]?

/-- The element at `i` exchanged with its parent until the parent is not smaller. -/
@[specialize] def siftUp (le : γ → γ → Bool) {n : Nat} (v : Vector γ n) (i : Nat) (hi : i < n) :
    Vector γ n :=
  if h0 : i = 0 then v
  else
    have hp : (i - 1) / 2 < n := by omega
    if le v[i] v[(i - 1) / 2] then v
    else siftUp le (v.swap i ((i - 1) / 2)) ((i - 1) / 2) hp
termination_by i

/-- The element at `i` exchanged with its larger child until it has none, the right one of
    two equal children.  Gives the index it ends at. -/
@[specialize] def siftToBottom (le : γ → γ → Bool) {n : Nat} (v : Vector γ n) (i : Nat)
    (hi : i < n) : Vector γ n × { j : Nat // j < n } :=
  if h2 : 2 * i + 2 < n then
    if le v[2 * i + 1] v[2 * i + 2] then
      siftToBottom le (v.swap i (2 * i + 2)) (2 * i + 2) h2
    else siftToBottom le (v.swap i (2 * i + 1)) (2 * i + 1) (by omega)
  else if h1 : 2 * i + 1 < n then (v.swap i (2 * i + 1), ⟨2 * i + 1, h1⟩)
  else (v, ⟨i, hi⟩)
termination_by n - i

/-- The heap with one more element. -/
@[specialize] def push (le : γ → γ → Bool) (heap : MaxHeap γ) (x : γ) : MaxHeap γ :=
  ⟨(siftUp le (heap.elements.push x).toVector heap.size (by simp [size])).toArray⟩

/-- The heap without its greatest element. -/
@[specialize] def pop (le : γ → γ → Bool) (heap : MaxHeap γ) : MaxHeap γ :=
  if h : 1 < heap.elements.size then
    have hlast : heap.elements.size - 1 < heap.elements.size := by omega
    have hroot : 0 < heap.elements.pop.size := by simp; omega
    let last := heap.elements[heap.elements.size - 1]
    let rest := heap.elements.pop.toVector.set 0 last hroot
    let (v, ⟨i, hi⟩) := siftToBottom le rest 0 hroot
    ⟨(siftUp le v i hi).toArray⟩
  else ⟨#[]⟩

end MaxHeap

end Verdure
