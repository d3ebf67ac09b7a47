/-
  Verdure.Proofs.Nesting.Partners

  The partner table and the stack of open brackets.

  A scan keeps the brackets that wait for a partner on a stack.  `Scan.Tracks` says what
  that stack is: the opening brackets behind the scan that have no partner yet, each once.
  So an entry is written when its symbol is scanned, and written again only for an opening
  bracket that is closed; the entry of a closing bracket tells whether the stack was empty
  there.
-/
import Verdure.Nesting
import Mathlib.Data.List.Induction
import Mathlib.Data.List.Nodup

namespace Verdure.Nesting

/-- The scan of a word of roles that is entered at a level. -/
def scanned (level : Int) (roles : List Role) : Scan := roles.foldl Scan.step (.start level)

theorem scanned_concat (level : Int) (roles : List Role) (role : Role) :
    scanned level (roles ++ [role]) = (scanned level roles).step role :=
  List.foldl_concat ..

theorem scanned_take_succ (level : Int) {roles : List Role} {k : Nat} {role : Role}
    (h : roles[k]? = some role) :
    scanned level (roles.take (k + 1)) = (scanned level (roles.take k)).step role := by
  rw [List.take_add_one, h]
  exact scanned_concat level (roles.take k) role

theorem partner?_ofRoles (level : Int) (roles : List Role) (i : Nat) :
    (ofRoles level roles).partner? i = (scanned level roles).partners[i]?.join := rfl

namespace Scan

/-! ## One more symbol -/

section Step

variable (scan : Scan)

theorem unmatched_step_opening :
    (scan.step .opening).unmatched = scan.partners.size :: scan.unmatched := rfl

theorem unmatched_step_closing : (scan.step .closing).unmatched = scan.unmatched.tail := by
  unfold step
  cases scan.unmatched <;> rfl

theorem unmatched_step_of_ne {role : Role} (h_opening : role ≠ .opening)
    (h_closing : role ≠ .closing) : (scan.step role).unmatched = scan.unmatched := by
  cases role with
  | opening => exact absurd rfl h_opening
  | closing => exact absurd rfl h_closing
  | leaf => rfl
  | other => rfl

/-- An entry is written with its symbol, and again if its bracket is the latest open one and
    the new symbol closes it. -/
theorem getElem?_partners_step (role : Role) (i : Nat) :
    (scan.step role).partners[i]? =
      if i = scan.partners.size then some (if role = .closing then scan.unmatched.head? else none)
      else if role = .closing ∧ scan.unmatched.head? = some i then
        scan.partners[i]?.map fun _ => some scan.partners.size
      else scan.partners[i]? := by
  unfold step
  split
  next => simp [Array.getElem?_push]
  next opened unmatched h_unmatched =>
    rw [h_unmatched]
    simp only [Array.getElem?_push, Array.size_setIfInBounds, Array.getElem?_setIfInBounds,
      List.head?_cons, Option.some.injEq, true_and, if_true]
    grind
  next h_opening h_closing =>
    simp only [Array.getElem?_push]
    cases h_unmatched : scan.unmatched <;> grind

theorem size_partners_step (role : Role) :
    (scan.step role).partners.size = scan.partners.size + 1 := by
  unfold step
  split <;> simp

end Step

/-! ## The stack of open brackets -/

/-- The stack holds the opening brackets of the roles that have no partner yet, each once. -/
structure Tracks (scan : Scan) (roles : List Role) : Prop where
  size_eq : scan.partners.size = roles.length
  mem_iff : ∀ i, i ∈ scan.unmatched ↔ roles[i]? = some .opening ∧ scan.partners[i]? = some none
  nodup : scan.unmatched.Nodup

theorem tracks_start (level : Int) : (start level).Tracks [] := by
  refine ⟨rfl, fun i => ?_, List.nodup_nil⟩
  simp [start]

theorem Tracks.lt {scan : Scan} {roles : List Role} (h : scan.Tracks roles) {i : Nat}
    (h_i : i ∈ scan.unmatched) : i < roles.length :=
  (List.getElem?_eq_some_iff.mp ((h.mem_iff i).mp h_i).1).1

theorem getElem?_concat (roles : List Role) (role : Role) (i : Nat) :
    (roles ++ [role])[i]? = if i = roles.length then some role else roles[i]? := by
  grind

theorem Tracks.step {scan : Scan} {roles : List Role} (h : scan.Tracks roles) (role : Role) :
    (scan.step role).Tracks (roles ++ [role]) := by
  have h_size := h.size_eq
  refine ⟨?_, fun i => ?_, ?_⟩
  · rw [size_partners_step, h_size, List.length_append, List.length_singleton]
  · rw [getElem?_partners_step, getElem?_concat, h_size]
    have h_mem := h.mem_iff i
    have h_lt : i ∈ scan.unmatched → i < roles.length := h.lt
    cases role with
    | opening =>
        rw [unmatched_step_opening, List.mem_cons, h_size]
        by_cases h_i : i = roles.length <;> simp [h_i, h_mem]
    | closing =>
        rw [unmatched_step_closing]
        have h_nodup := h.nodup
        -- The latest open bracket leaves the stack and gets its partner.
        cases h_unmatched : scan.unmatched with
        | nil => grind
        | cons opened rest => grind
    | leaf =>
        rw [unmatched_step_of_ne _ (by decide) (by decide)]
        grind
    | other =>
        rw [unmatched_step_of_ne _ (by decide) (by decide)]
        grind
  · have h_nodup := h.nodup
    cases role with
    | opening =>
        rw [unmatched_step_opening, h_size, List.nodup_cons]
        exact ⟨fun h_mem => Nat.lt_irrefl _ (h.lt h_mem), h_nodup⟩
    | closing =>
        rw [unmatched_step_closing]
        exact h_nodup.tail
    | leaf => exact h_nodup
    | other => exact h_nodup

end Scan

theorem tracks_scanned (level : Int) (roles : List Role) :
    (scanned level roles).Tracks roles := by
  induction roles using List.reverseRecOn with
  | nil => exact Scan.tracks_start level
  | append_singleton roles role ih =>
      rw [scanned_concat]
      exact ih.step role

theorem size_partners_scanned_take (level : Int) {roles : List Role} {k : Nat}
    (h_k : k ≤ roles.length) : (scanned level (roles.take k)).partners.size = k := by
  rw [(tracks_scanned level (roles.take k)).size_eq, List.length_take_of_le h_k]

/-- The partner of a closing bracket is the latest open one where it is scanned. -/
theorem partner?_of_closing (level : Int) {roles : List Role} {j : Nat}
    (h : roles[j]? = some .closing) :
    (ofRoles level roles).partner? j = (scanned level (roles.take j)).unmatched.head? := by
  suffices h_entry : (scanned level roles).partners[j]?
      = some (scanned level (roles.take j)).unmatched.head? by
    rw [partner?_ofRoles, h_entry, Option.join_some]
  induction roles using List.reverseRecOn with
  | nil => simp at h
  | append_singleton roles role ih =>
      have h_tracks := tracks_scanned level roles
      rw [Scan.getElem?_concat] at h
      rw [scanned_concat, Scan.getElem?_partners_step, h_tracks.size_eq]
      split at h
      next h_last =>
        obtain rfl := Option.some.inj h
        rw [if_pos h_last, if_pos rfl, h_last, List.take_left]
      next h_last =>
        -- Only entries of opening brackets are written again.
        have h_not : (scanned level roles).unmatched.head? ≠ some j := by
          intro h_head
          have h_opening := ((h_tracks.mem_iff j).mp (List.mem_of_head? h_head)).1
          rw [h] at h_opening
          cases h_opening
        have h_j : j ≤ roles.length := by
          obtain ⟨h_lt, -⟩ := List.getElem?_eq_some_iff.mp h
          exact Nat.le_of_lt h_lt
        rw [if_neg h_last, if_neg (fun h_close => h_not h_close.2), ih h,
          List.take_append_of_le_length h_j]

/-- An opening bracket without a partner is one that is open at the end of the word. -/
theorem partner?_eq_none_iff_of_opening (level : Int) {roles : List Role} {i : Nat}
    (h : roles[i]? = some .opening) :
    (ofRoles level roles).partner? i = none ↔ i ∈ (scanned level roles).unmatched := by
  have h_tracks := tracks_scanned level roles
  obtain ⟨h_i, -⟩ := List.getElem?_eq_some_iff.mp h
  have h_size : i < (scanned level roles).partners.size := by rwa [h_tracks.size_eq]
  rw [partner?_ofRoles, h_tracks.mem_iff, Array.getElem?_eq_getElem h_size, Option.join_some,
    Option.some_inj]
  exact ⟨fun h_none => ⟨h, h_none⟩, And.right⟩

/-- As many opening brackets have no partner as are open at the end of the word. -/
theorem countP_unpaired (level : Int) (roles : List Role) :
    (List.range roles.length).countP
        (fun i => decide (roles[i]? = some .opening) && ((ofRoles level roles).partner? i).isNone)
      = (scanned level roles).unmatched.length := by
  have h_tracks := tracks_scanned level roles
  rw [List.countP_eq_length_filter]
  refine List.Perm.length_eq ?_
  refine (List.perm_ext_iff_of_nodup (List.nodup_range.filter _) h_tracks.nodup).mpr fun i => ?_
  rw [List.mem_filter, List.mem_range, Bool.and_eq_true, decide_eq_true_eq,
    Option.isNone_iff_eq_none]
  refine ⟨fun ⟨_, h_opening, h_none⟩ => ?_, fun h_mem => ?_⟩
  · exact (partner?_eq_none_iff_of_opening level h_opening).mp h_none
  · have h_opening := ((h_tracks.mem_iff i).mp h_mem).1
    exact ⟨h_tracks.lt h_mem, h_opening,
      (partner?_eq_none_iff_of_opening level h_opening).mpr h_mem⟩

end Verdure.Nesting
