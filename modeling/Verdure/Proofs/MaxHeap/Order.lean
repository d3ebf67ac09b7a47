/-
  Verdure.Proofs.MaxHeap.Order

  Heap order of `MaxHeap`.

  `Ordered` says that no element is greater than its parent.  While an element moves, the
  order is kept around its place: `OrderedAround v i` leaves out the links of `i` to its
  parent and to its children, and asks that the children are not greater than the parent.
  Sending an element down moves that place to a leaf, and letting it rise from a leaf
  restores the order.
-/
import Verdure.MaxHeap
import Mathlib.Logic.Equiv.Basic
import Mathlib.Data.List.Perm.Basic

namespace Verdure.MaxHeap

variable {γ : Type} {n : Nat} {le : γ → γ → Bool}

/-! ## Links -/

/-- The element at `c` is not greater than the one at `p`. -/
def Link (le : γ → γ → Bool) (v : Vector γ n) (c p : Nat) : Prop :=
  ∀ (hc : c < n) (hp : p < n), le v[c] v[p] = true

/-- No element is greater than its parent. -/
def Ordered (le : γ → γ → Bool) (v : Vector γ n) : Prop :=
  ∀ j, 0 < j → Link le v j ((j - 1) / 2)

/-- Heap order, but for the links of the element at `i`. -/
structure OrderedAround (le : γ → γ → Bool) (v : Vector γ n) (i : Nat) : Prop where
  rest : ∀ j, 0 < j → j ≠ i → (j - 1) / 2 ≠ i → Link le v j ((j - 1) / 2)
  bridge : ∀ j, 0 < j → (j - 1) / 2 = i → 0 < i → Link le v j ((i - 1) / 2)

theorem getElem_swap_eq {v : Vector γ n} {a b : Nat} (ha : a < n) (hb : b < n) {c : Nat}
    (hc : c < n) :
    ∃ hc' : Equiv.swap a b c < n, (v.swap a b)[c] = v[Equiv.swap a b c] := by
  rw [Vector.getElem_swap]
  split
  next h =>
    subst h
    simp [hb]
  next h_a =>
    split
    next h =>
      subst h
      simp [ha]
    next h_b => simp [Equiv.swap_apply_of_ne_of_ne h_a h_b, hc]

theorem link_swap {v : Vector γ n} {a b : Nat} (ha : a < n) (hb : b < n) {c p : Nat}
    (h : Link le v (Equiv.swap a b c) (Equiv.swap a b p)) : Link le (v.swap a b) c p := by
  intro hc hp
  obtain ⟨hc', h_c⟩ := getElem_swap_eq (v := v) ha hb hc
  obtain ⟨hp', h_p⟩ := getElem_swap_eq (v := v) ha hb hp
  rw [h_c, h_p]
  exact h hc' hp'

section Order

variable (h_trans : ∀ a b c, le a b = true → le b c = true → le a c = true)
  (h_total : ∀ a b, (le a b || le b a) = true)

include h_trans in
theorem Link.trans {v : Vector γ n} {c p q : Nat} (hp : p < n) (h : Link le v c p)
    (h' : Link le v p q) : Link le v c q :=
  fun hc hq => h_trans _ _ _ (h hc hp) (h' hp hq)

/-! ## Rising -/

include h_trans h_total in
theorem ordered_siftUp (v : Vector γ n) (i : Nat) (hi : i < n) (h_around : OrderedAround le v i)
    (h_children : ∀ j, 0 < j → (j - 1) / 2 = i → Link le v j i) :
    Ordered le (siftUp le v i hi) := by
  induction v, i, hi using siftUp.induct le with
  | case1 v hi =>
      -- At the root only the links to the children are left open.
      rw [siftUp, dif_pos rfl]
      intro j hj
      by_cases h_parent : (j - 1) / 2 = 0
      · rw [h_parent]
        exact h_children j hj h_parent
      · exact h_around.rest j hj (by omega) h_parent
  | case2 v i hi h0 hp h_le =>
      -- The element stays, because its parent is not smaller.
      rw [siftUp, dif_neg h0, if_pos h_le]
      intro j hj
      by_cases h_i : j = i
      · subst h_i
        exact fun _ _ => h_le
      · by_cases h_parent : (j - 1) / 2 = i
        · rw [h_parent]
          exact h_children j hj h_parent
        · exact h_around.rest j hj h_i h_parent
  | case3 v i hi h0 hp h_le ih =>
      rw [siftUp, dif_neg h0, if_neg h_le]
      have h_up : Link le v ((i - 1) / 2) i := by
        intro _ _
        have h := h_total v[i] v[(i - 1) / 2]
        simpa [h_le] using h
      -- Every other child of the parent is below the parent, hence below the risen element.
      have h_sibling : ∀ j, 0 < j → (j - 1) / 2 = (i - 1) / 2 → j ≠ i →
          Link le v j ((i - 1) / 2) := by
        intro j hj h_parent h_i
        rw [← h_parent]
        exact h_around.rest j hj h_i (by omega)
      -- The place moves up to the parent: its links, the bridge over it, its children.
      apply ih
      · constructor
        · intro j hj h_ne h_parent
          apply link_swap hi hp
          by_cases h_child : (j - 1) / 2 = i
          · rw [h_child, Equiv.swap_apply_left, Equiv.swap_apply_of_ne_of_ne (by omega) h_ne]
            exact h_around.bridge j hj h_child (by omega)
          · rw [Equiv.swap_apply_of_ne_of_ne (by rintro rfl; exact h_parent rfl) h_ne,
              Equiv.swap_apply_of_ne_of_ne h_child h_parent]
            exact h_around.rest j hj (by rintro rfl; exact h_parent rfl) h_child
        · intro j hj h_parent h_pos
          have h_grand : Link le v ((i - 1) / 2) (((i - 1) / 2 - 1) / 2) :=
            h_around.rest _ h_pos (by omega) (by omega)
          apply link_swap hi hp
          rw [Equiv.swap_apply_of_ne_of_ne (a := i) (x := ((i - 1) / 2 - 1) / 2) (by omega)
            (by omega)]
          by_cases h_i : j = i
          · rw [h_i, Equiv.swap_apply_left]
            exact h_grand
          · rw [Equiv.swap_apply_of_ne_of_ne h_i (by omega)]
            exact (h_sibling j hj h_parent h_i).trans h_trans hp h_grand
      · intro j hj h_parent
        apply link_swap hi hp
        rw [Equiv.swap_apply_right]
        by_cases h_i : j = i
        · rw [h_i, Equiv.swap_apply_left]
          exact h_up
        · rw [Equiv.swap_apply_of_ne_of_ne h_i (by omega)]
          exact (h_sibling j hj h_parent h_i).trans h_trans hp h_up

/-! ## Descending -/

/-- The place moves down to a child that no other child is above. -/
theorem OrderedAround.swap_child {v : Vector γ n} {i c : Nat} (h : OrderedAround le v i)
    (hi : i < n) (hc : c < n) (h_pos : 0 < c) (h_child : (c - 1) / 2 = i)
    (h_sibling : ∀ j, 0 < j → (j - 1) / 2 = i → j ≠ c → Link le v j c) :
    OrderedAround le (v.swap i c) c := by
  have h_ne : i ≠ c := by omega
  constructor
  · -- What moves up is held by the bridge, its siblings by the choice of `c`, the others as before.
    intro j hj h_j h_parent
    apply link_swap hi hc
    by_cases h_i : j = i
    · subst h_i
      rw [Equiv.swap_apply_left, Equiv.swap_apply_of_ne_of_ne (by omega) h_parent]
      exact h.bridge c h_pos h_child hj
    · rw [Equiv.swap_apply_of_ne_of_ne h_i h_j]
      by_cases h_parent_i : (j - 1) / 2 = i
      · rw [h_parent_i, Equiv.swap_apply_left]
        exact h_sibling j hj h_parent_i h_j
      · rw [Equiv.swap_apply_of_ne_of_ne h_parent_i h_parent]
        exact h.rest j hj h_i h_parent_i
  · intro j hj h_parent _
    apply link_swap hi hc
    rw [h_child, Equiv.swap_apply_left, Equiv.swap_apply_of_ne_of_ne (by omega) (by omega),
      ← h_parent]
    exact h.rest j hj (by omega) (by omega)

include h_total in
theorem orderedAround_siftToBottom (v : Vector γ n) (i : Nat) (hi : i < n)
    (h_around : OrderedAround le v i) :
    OrderedAround le (siftToBottom le v i hi).1 (siftToBottom le v i hi).2 ∧
      n ≤ 2 * ((siftToBottom le v i hi).2 : Nat) + 1 := by
  induction v, i, hi using siftToBottom.induct le with
  | case1 v i hi h2 h_le ih =>
      rw [siftToBottom, dif_pos h2, if_pos h_le]
      apply ih
      apply h_around.swap_child hi h2 (by omega) (by omega)
      intro j hj h_parent h_j
      obtain rfl : j = 2 * i + 1 := by omega
      exact fun _ _ => h_le
  | case2 v i hi h2 h_le ih =>
      rw [siftToBottom, dif_pos h2, if_neg h_le]
      apply ih
      apply h_around.swap_child hi (by omega) (by omega) (by omega)
      intro j hj h_parent h_j
      obtain rfl : j = 2 * i + 2 := by omega
      intro _ _
      have h := h_total v[2 * i + 1] v[2 * i + 2]
      simpa [h_le] using h
  | case3 v i hi h2 h1 =>
      -- An only child is the last element, and a leaf.
      rw [siftToBottom, dif_neg h2, dif_pos h1]
      refine ⟨h_around.swap_child hi h1 (by omega) (by omega) ?_, ?_⟩
      · intro j hj h_parent h_j hj' _
        omega
      · show n ≤ 2 * (2 * i + 1) + 1
        omega
  | case4 v i hi h2 h1 =>
      rw [siftToBottom, dif_neg h2, dif_neg h1]
      refine ⟨h_around, ?_⟩
      show n ≤ 2 * i + 1
      omega

end Order

/-! ## Contents -/

theorem siftUp_perm (v : Vector γ n) (i : Nat) (hi : i < n) :
    (siftUp le v i hi).toList.Perm v.toList := by
  induction v, i, hi using siftUp.induct le with
  | case1 v hi => rw [siftUp, dif_pos rfl]
  | case2 v i hi h0 hp h_le => rw [siftUp, dif_neg h0, if_pos h_le]
  | case3 v i hi h0 hp h_le ih =>
      rw [siftUp, dif_neg h0, if_neg h_le]
      exact ih.trans (Vector.swap_perm hi hp).toList

theorem siftToBottom_perm (v : Vector γ n) (i : Nat) (hi : i < n) :
    (siftToBottom le v i hi).1.toList.Perm v.toList := by
  induction v, i, hi using siftToBottom.induct le with
  | case1 v i hi h2 h_le ih =>
      rw [siftToBottom, dif_pos h2, if_pos h_le]
      exact ih.trans (Vector.swap_perm _ _).toList
  | case2 v i hi h2 h_le ih =>
      rw [siftToBottom, dif_pos h2, if_neg h_le]
      exact ih.trans (Vector.swap_perm _ _).toList
  | case3 v i hi h2 h1 =>
      rw [siftToBottom, dif_neg h2, dif_pos h1]
      exact (Vector.swap_perm hi h1).toList
  | case4 v i hi h2 h1 => rw [siftToBottom, dif_neg h2, dif_neg h1]

/-! ## Heaps -/

/-- The elements of a heap. -/
def toList (heap : MaxHeap γ) : List γ := heap.elements.toList

/-- No element of the heap is greater than its parent. -/
def IsHeap (le : γ → γ → Bool) (heap : MaxHeap γ) : Prop := Ordered le heap.elements.toVector

theorem Ordered.isHeap {v : Vector γ n} (h : Ordered le v) : IsHeap le ⟨v.toArray⟩ := by
  obtain ⟨a, rfl⟩ := v
  exact h

theorem length_toList (heap : MaxHeap γ) : heap.toList.length = heap.size := rfl

theorem isHeap_empty : IsHeap le (empty : MaxHeap γ) := by
  intro j _ hj
  exact absurd hj (by simp [empty])

theorem push_perm (heap : MaxHeap γ) (x : γ) :
    (heap.push le x).toList.Perm (x :: heap.toList) := by
  have h_push : (heap.elements.push x).toVector.toList = heap.toList ++ [x] := by
    simp [toList]
  have h_sift := @siftUp_perm γ _ le (heap.elements.push x).toVector heap.size (by simp [size])
  rw [h_push] at h_sift
  exact h_sift.trans List.perm_append_comm

theorem max?_eq_none_iff (heap : MaxHeap γ) : heap.max? = none ↔ heap.size = 0 := by
  simp [max?, size]

theorem isHeap_push (h_trans : ∀ a b c, le a b = true → le b c = true → le a c = true)
    (h_total : ∀ a b, (le a b || le b a) = true) {heap : MaxHeap γ} (h : heap.IsHeap le) (x : γ) :
    (heap.push le x).IsHeap le := by
  have h_last : heap.size < (heap.elements.push x).size := by simp [size]
  -- The new element comes last, so it has no children.
  have h_leaf : ∀ j, 0 < j → (j - 1) / 2 = heap.size → ¬j < (heap.elements.push x).size := by
    intro j hj h_parent h_j
    rw [Array.size_push] at h_j
    unfold size at h_parent
    omega
  apply Ordered.isHeap
  apply ordered_siftUp h_trans h_total
  · constructor
    · intro j hj h_ne h_parent h_j h_p
      have h_old : j < heap.elements.size := by
        rw [Array.size_push] at h_j
        unfold size at h_ne
        omega
      have h_link := h j hj h_old (by omega)
      simpa [Array.getElem_push_lt, h_old, show (j - 1) / 2 < heap.elements.size by omega]
        using h_link
    · intro j hj h_parent _ h_j
      exact absurd h_j (h_leaf j hj h_parent)
  · intro j hj h_parent h_j
    exact absurd h_j (h_leaf j hj h_parent)

theorem size_pop_pos {heap : MaxHeap γ} (h : 1 < heap.elements.size) :
    0 < heap.elements.pop.size := by
  rw [Array.size_pop]
  omega

/-- The root in exchange for the last element, which is not yet in its place. -/
def rerooted (heap : MaxHeap γ) (h : 1 < heap.elements.size) :
    Vector γ heap.elements.pop.size :=
  heap.elements.pop.toVector.set 0 (heap.elements.back (Nat.zero_lt_of_lt h)) (size_pop_pos h)

theorem pop_eq (heap : MaxHeap γ) (h : 1 < heap.elements.size) :
    ∃ h_root : 0 < heap.elements.pop.size,
      heap.pop le = ⟨(siftUp le (siftToBottom le (heap.rerooted h) 0 h_root).1
        (siftToBottom le (heap.rerooted h) 0 h_root).2
        (siftToBottom le (heap.rerooted h) 0 h_root).2.2).toArray⟩ := by
  refine ⟨size_pop_pos h, ?_⟩
  rw [pop, dif_pos h]
  rfl

theorem getElem_rerooted {heap : MaxHeap γ} {h : 1 < heap.elements.size} {j : Nat} (hj : 0 < j)
    {h_j : j < heap.elements.pop.size} (h_j' : j < heap.elements.size) :
    (heap.rerooted h)[j] = heap.elements[j] := by
  unfold rerooted
  rw [Vector.getElem_set_ne _ _ (by omega)]
  exact Array.getElem_pop h_j

theorem rerooted_perm (heap : MaxHeap γ) (h : 1 < heap.elements.size) :
    (heap.elements[0] :: (heap.rerooted h).toList).Perm heap.toList := by
  obtain ⟨⟨l⟩⟩ := heap
  obtain ⟨a, t, rfl⟩ : ∃ a t, l = a :: t := List.exists_cons_of_length_pos (by simp at h; omega)
  -- The elements are a root `a`, a last element `b` and others between them.
  obtain ⟨t, b, rfl⟩ : ∃ t' b, t = t' ++ [b] := by
    refine ⟨t.dropLast, t.getLast ?_, (List.dropLast_append_getLast _).symm⟩
    rintro rfl
    simp at h
  have h_front : (a :: (t ++ [b])).dropLast = a :: t := by
    rw [← List.cons_append, List.dropLast_concat]
  have h_rest : ((MaxHeap.mk ⟨a :: (t ++ [b])⟩).rerooted h).toList = b :: t := by
    simp [rerooted, h_front]
  rw [h_rest]
  have h_last : (b :: t).Perm (t ++ [b]) := (List.perm_append_singleton b t).symm
  exact h_last.cons a

theorem isHeap_pop (h_trans : ∀ a b c, le a b = true → le b c = true → le a c = true)
    (h_total : ∀ a b, (le a b || le b a) = true) {heap : MaxHeap γ} (h : heap.IsHeap le) :
    (heap.pop le).IsHeap le := by
  by_cases h_size : 1 < heap.elements.size
  · obtain ⟨h_root, h_pop⟩ := @pop_eq γ le heap h_size
    -- Putting the last element at the root breaks the links of the root only.
    have h_around : OrderedAround le (heap.rerooted h_size) 0 := by
      constructor
      · intro j hj _ h_parent h_j h_p
        rw [Array.size_pop] at h_j
        have h_old : j < heap.elements.size := by omega
        have h_old' : (j - 1) / 2 < heap.elements.size := by omega
        rw [getElem_rerooted hj h_old, getElem_rerooted (Nat.pos_of_ne_zero h_parent) h_old']
        exact h j hj h_old h_old'
      · intro j _ _ h_zero
        exact absurd h_zero (Nat.lt_irrefl 0)
    obtain ⟨h_bottom, h_leaf⟩ := orderedAround_siftToBottom h_total _ 0 h_root h_around
    rw [h_pop]
    apply Ordered.isHeap
    apply ordered_siftUp h_trans h_total _ _ _ h_bottom
    intro j hj h_parent h_j
    omega
  · rw [pop, dif_neg h_size]
    exact isHeap_empty

theorem pop_perm {heap : MaxHeap γ} {m : γ} (h_max : heap.max? = some m) :
    (m :: (heap.pop le).toList).Perm heap.toList := by
  obtain ⟨h_pos, h_root⟩ := Array.getElem?_eq_some_iff.mp h_max
  by_cases h_size : 1 < heap.elements.size
  · obtain ⟨h_root', h_pop⟩ := @pop_eq γ le heap h_size
    have h_contents : (heap.pop le).toList.Perm (heap.rerooted h_size).toList := by
      rw [h_pop]
      exact (siftUp_perm _ _ _).trans (siftToBottom_perm _ _ _)
    rw [← h_root]
    exact (h_contents.cons _).trans (rerooted_perm heap h_size)
  · -- The root is the only element.
    rw [pop, dif_neg h_size]
    have h_list : heap.toList = [m] := by
      apply List.ext_getElem
      · show heap.elements.size = 1
        omega
      · intro j h_j h_one
        have h_zero : j = 0 := by simpa using h_one
        subst h_zero
        exact h_root
    rw [h_list]
    exact List.Perm.refl [m]

theorem le_max (h_trans : ∀ a b c, le a b = true → le b c = true → le a c = true)
    (h_total : ∀ a b, (le a b || le b a) = true) {heap : MaxHeap γ} (h : heap.IsHeap le) {m : γ}
    (h_max : heap.max? = some m) {a : γ} (ha : a ∈ heap.toList) : le a m = true := by
  obtain ⟨h_pos, h_root⟩ := Array.getElem?_eq_some_iff.mp h_max
  obtain ⟨j, h_j, rfl⟩ := List.getElem_of_mem ha
  -- Up the parents, every element is below the root.
  induction j using Nat.strongRecOn with
  | ind j ih =>
      rcases Nat.eq_zero_or_pos j with h_zero | h_pos_j
      · subst h_zero
        rw [← h_root]
        have h_refl : le heap.elements[0] heap.elements[0] = true := by
          simpa using h_total heap.elements[0] heap.elements[0]
        exact h_refl
      · have h_j' : j < heap.elements.size := h_j
        have h_parent : (j - 1) / 2 < heap.elements.size := by omega
        have h_up := ih ((j - 1) / 2) (by omega) h_parent (List.getElem_mem _)
        exact h_trans _ _ _ (h j h_pos_j h_j' h_parent) h_up

theorem size_push (heap : MaxHeap γ) (x : γ) : (heap.push le x).size = heap.size + 1 :=
  (push_perm heap x).length_eq

theorem size_pop {heap : MaxHeap γ} {m : γ} (h_max : heap.max? = some m) :
    (heap.pop le).size + 1 = heap.size :=
  (pop_perm h_max).length_eq

end Verdure.MaxHeap
