/-
  Verdure.Proofs.Nesting.Matching

  The partner table and the levels, two views of one nesting.

  The table is filled from a stack of open brackets, the levels are counted beside it, and
  after an unmatched closing bracket the level goes on falling while the stack stays empty.
  `Matches` says by the levels alone which brackets belong together: the level is above that
  of the opening bracket all the way up to the closing one, and it is back after that.  The
  stack holds the brackets that are open in this sense, one level apart (`Scan.Follows`), so
  the table holds the matching pairs and nothing else (`partner?_eq_some_iff`).
-/
import Verdure.Proofs.Nesting.Levels
import Verdure.Proofs.Nesting.Partners
import Mathlib.Data.Nat.Find
import Mathlib.Order.Bounds.Defs

namespace Verdure.Nesting

/-! ## Brackets by their levels -/

section Brackets

variable {level : Int} {roles : List Role} {i j k : Nat}

/-- The bracket at `i` is open before the symbol at `k`: since it opened, the level has not
    come back. -/
structure OpenAt (level : Int) (roles : List Role) (i k : Nat) : Prop where
  opening : roles[i]? = some .opening
  lt : i < k
  above : ∀ m, i < m → m ≤ k → levelAt level roles i < levelAt level roles m

/-- The brackets at `i` and `j` belong together: the first is open up to the second, and the
    level is back after that. -/
structure Matches (level : Int) (roles : List Role) (i j : Nat) : Prop where
  openAt : OpenAt level roles i j
  closing : roles[j]? = some .closing
  back : levelAt level roles (j + 1) = levelAt level roles i

theorem openAt_succ_iff {role : Role} (h_role : roles[k]? = some role) :
    OpenAt level roles i (k + 1) ↔
      (OpenAt level roles i k ∨ i = k ∧ role = .opening) ∧
        levelAt level roles i < levelAt level roles (k + 1) := by
  constructor
  · rintro ⟨h_opening, h_lt, h_above⟩
    refine ⟨?_, h_above (k + 1) h_lt (Nat.le_refl _)⟩
    rcases Nat.eq_or_lt_of_le (Nat.le_of_lt_succ h_lt) with rfl | h_i
    · rw [h_role] at h_opening
      exact .inr ⟨rfl, Option.some.inj h_opening⟩
    · exact .inl ⟨h_opening, h_i, fun m h_m h_le => h_above m h_m (by omega)⟩
  · rintro ⟨h_before | ⟨rfl, rfl⟩, h_now⟩
    · refine ⟨h_before.opening, Nat.lt_succ_of_lt h_before.lt, fun m h_m h_le => ?_⟩
      rcases Nat.eq_or_lt_of_le h_le with rfl | h_lt
      · exact h_now
      · exact h_before.above m h_m (Nat.le_of_lt_succ h_lt)
    · refine ⟨h_role, Nat.lt_succ_self _, fun m h_m h_le => ?_⟩
      obtain rfl : m = i + 1 := by omega
      exact h_now

theorem Matches.lt (h : Matches level roles i j) : i < j := h.openAt.lt

theorem Matches.not_symm (h : Matches level roles i j) : ¬Matches level roles j k := by
  intro h'
  have h_closing := h.closing
  rw [h'.openAt.opening] at h_closing
  cases h_closing

theorem Matches.right_unique {j' : Nat} (h : Matches level roles i j)
    (h' : Matches level roles i j') : j = j' := by
  -- A second closing bracket would stand where the level has been back already.
  have h_not_lt : ∀ {a b : Nat}, Matches level roles i a → Matches level roles i b → ¬a < b := by
    intro a b h_a h_b h_lt
    have h_above := h_b.openAt.above (a + 1) (Nat.lt_succ_of_lt h_a.lt) h_lt
    rw [h_a.back] at h_above
    exact Int.lt_irrefl _ h_above
  exact Nat.le_antisymm (Nat.not_lt.mp (h_not_lt h' h)) (Nat.not_lt.mp (h_not_lt h h'))

/-- Matching pairs do not cross. -/
theorem Matches.not_crossing {i' j' : Nat} (h : Matches level roles i j)
    (h' : Matches level roles i' j') : ¬(i < i' ∧ i' < j ∧ j < j') := by
  rintro ⟨h_i, h_inside, h_j⟩
  -- The level of the inner bracket is above that of the outer one, and below it where the
  -- outer one has closed.
  have h_outer := h.openAt.above i' h_i (Nat.le_of_lt h_inside)
  have h_inner := h'.openAt.above (j + 1) (Nat.lt_succ_of_lt h_inside) h_j
  rw [h.back] at h_inner
  exact Int.lt_irrefl _ (Int.lt_trans h_outer h_inner)

/-- The closing bracket of an opening one is where the level is back for the first time. -/
theorem matches_iff_isLeast (h_opening : roles[i]? = some .opening) :
    Matches level roles i j ↔
      IsLeast {j | i < j ∧ j < roles.length ∧
        levelAt level roles (j + 1) = levelAt level roles i} j := by
  constructor
  · intro h
    obtain ⟨h_j, -⟩ := List.getElem?_eq_some_iff.mp h.closing
    refine ⟨⟨h.lt, h_j, h.back⟩, ?_⟩
    rintro m ⟨h_m, -, h_back⟩
    by_contra h_lt
    have h_above := h.openAt.above (m + 1) (Nat.lt_succ_of_lt h_m) (Nat.not_le.mp h_lt)
    rw [h_back] at h_above
    exact Int.lt_irrefl _ h_above
  · rintro ⟨⟨h_lt, h_j, h_back⟩, h_least⟩
    -- Going up by one and down by one at most, the level cannot get past its old value.
    have h_above : ∀ m, i < m → m ≤ j → levelAt level roles i < levelAt level roles m := by
      intro m h_m
      induction m, h_m using Nat.le_induction with
      | base =>
          intro _
          rw [Nat.succ_eq_add_one, levelAt_succ level h_opening]
          exact Int.lt_succ _
      | succ m h_m ih =>
          intro h_le
          have h_before := ih (by omega)
          have h_step :=
            levelAt_succ level (List.getElem?_eq_getElem (show m < roles.length by omega))
          have h_change := Role.neg_one_le_change roles[m]
          have h_ne : levelAt level roles (m + 1) ≠ levelAt level roles i := by
            intro h_eq
            have := h_least ⟨h_m, by omega, h_eq⟩
            omega
          omega
    refine ⟨⟨h_opening, h_lt, h_above⟩, ?_, h_back⟩
    have h_before := h_above j h_lt (Nat.le_refl _)
    have h_step := levelAt_succ level (List.getElem?_eq_getElem h_j)
    rw [List.getElem?_eq_getElem h_j, Option.some_inj]
    refine Role.eq_closing_of_change_neg ?_
    omega

end Brackets

/-! ## The stack of open brackets -/

namespace Scan

/-- The stack holds the brackets that are open before the symbol at `k`.  Their levels go
    down by one from the latest to the first, and the level of the first has never been
    undercut. -/
structure Follows (scan : Scan) (level : Int) (roles : List Role) (k : Nat) : Prop where
  mem_iff : ∀ i, i ∈ scan.unmatched ↔ OpenAt level roles i k
  level_eq : ∀ n i : Nat, scan.unmatched[n]? = some i →
    levelAt level roles i + n + 1 = levelAt level roles k
  floor_le : ∀ m ≤ k, levelAt level roles k ≤ levelAt level roles m + scan.unmatched.length

variable {scan : Scan} {level : Int} {roles : List Role} {k : Nat}

theorem follows_start (level : Int) (roles : List Role) : (start level).Follows level roles 0 := by
  refine ⟨fun i => ⟨fun h => ?_, fun h => ?_⟩, fun n i h => ?_, fun m h_m => ?_⟩
  · exact absurd h List.not_mem_nil
  · exact absurd h.lt (Nat.not_lt_zero i)
  · cases h
  · obtain rfl := Nat.le_zero.mp h_m
    exact Int.le_of_eq (Int.add_zero _).symm

/-- A bracket on the stack is below the level that the scan has come to. -/
theorem Follows.levelAt_lt (h : scan.Follows level roles k) {i : Nat} (h_i : i ∈ scan.unmatched) :
    levelAt level roles i < levelAt level roles k := by
  have h_open := (h.mem_iff i).mp h_i
  exact h_open.above k h_open.lt (Nat.le_refl _)

theorem Follows.step_opening (h : scan.Follows level roles k) (h_size : scan.partners.size = k)
    (h_role : roles[k]? = some .opening) : (scan.step .opening).Follows level roles (k + 1) := by
  have h_level := levelAt_succ level h_role
  have h_change : Role.opening.change = 1 := rfl
  refine ⟨fun i => ?_, fun n i h_n => ?_, fun m h_m => ?_⟩
  · rw [openAt_succ_iff h_role, unmatched_step_opening, List.mem_cons, h_size, ← h.mem_iff i]
    constructor
    · rintro (rfl | h_i)
      · exact ⟨.inr ⟨rfl, rfl⟩, by omega⟩
      · have := h.levelAt_lt h_i
        exact ⟨.inl h_i, by omega⟩
    · rintro ⟨h_i | ⟨rfl, -⟩, -⟩
      · exact .inr h_i
      · exact .inl rfl
  · rw [unmatched_step_opening, h_size] at h_n
    cases n with
    | zero =>
        obtain rfl := Option.some.inj h_n
        omega
    | succ n =>
        have := h.level_eq n i h_n
        omega
  · rw [unmatched_step_opening, List.length_cons]
    rcases Nat.eq_or_lt_of_le h_m with rfl | h_lt
    · omega
    · have := h.floor_le m (Nat.le_of_lt_succ h_lt)
      omega

theorem Follows.step_closing (h : scan.Follows level roles k)
    (h_role : roles[k]? = some .closing) : (scan.step .closing).Follows level roles (k + 1) := by
  have h_level := levelAt_succ level h_role
  have h_change : Role.closing.change = -1 := rfl
  refine ⟨fun i => ?_, fun n i h_n => ?_, fun m h_m => ?_⟩
  · -- Of the open brackets only the latest is not below the new level.
    rw [openAt_succ_iff h_role, unmatched_step_closing, ← h.mem_iff i,
      or_iff_left (fun h_i => Role.noConfusion h_i.2), List.mem_iff_getElem?,
      List.mem_iff_getElem?]
    simp only [List.getElem?_tail]
    constructor
    · rintro ⟨n, h_n⟩
      have := h.level_eq (n + 1) i h_n
      exact ⟨⟨n + 1, h_n⟩, by omega⟩
    · rintro ⟨⟨n, h_n⟩, h_below⟩
      have h_eq := h.level_eq n i h_n
      cases n with
      | zero => omega
      | succ n => exact ⟨n, h_n⟩
  · rw [unmatched_step_closing, List.getElem?_tail] at h_n
    have := h.level_eq (n + 1) i h_n
    omega
  · rw [unmatched_step_closing, List.length_tail]
    rcases Nat.eq_or_lt_of_le h_m with rfl | h_lt
    · omega
    · have := h.floor_le m (Nat.le_of_lt_succ h_lt)
      omega

theorem Follows.step_of_ne (h : scan.Follows level roles k) {role : Role}
    (h_role : roles[k]? = some role) (h_opening : role ≠ .opening) (h_closing : role ≠ .closing) :
    (scan.step role).Follows level roles (k + 1) := by
  have h_level := levelAt_succ level h_role
  rw [Role.change_of_ne h_opening h_closing, Int.add_zero] at h_level
  have h_unmatched := unmatched_step_of_ne scan h_opening h_closing
  refine ⟨fun i => ?_, fun n i h_n => ?_, fun m h_m => ?_⟩
  · rw [openAt_succ_iff h_role, h_unmatched, ← h.mem_iff i,
      or_iff_left (fun h_i => h_opening h_i.2), h_level]
    exact ⟨fun h_i => ⟨h_i, h.levelAt_lt h_i⟩, And.left⟩
  · rw [h_unmatched] at h_n
    rw [h_level]
    exact h.level_eq n i h_n
  · rw [h_unmatched]
    rcases Nat.eq_or_lt_of_le h_m with rfl | h_lt
    · omega
    · rw [h_level]
      exact h.floor_le m (Nat.le_of_lt_succ h_lt)

end Scan

section Table

variable {level : Int} {roles : List Role} {i j k : Nat}

theorem follows_scanned (level : Int) (roles : List Role) (h_k : k ≤ roles.length) :
    (scanned level (roles.take k)).Follows level roles k := by
  induction k with
  | zero => exact Scan.follows_start level roles
  | succ k ih =>
      have h_role := List.getElem?_eq_getElem (show k < roles.length from h_k)
      have h_size := size_partners_scanned_take level (Nat.le_of_succ_le h_k)
      have h := ih (Nat.le_of_succ_le h_k)
      rw [scanned_take_succ level h_role]
      cases h_eq : roles[k] with
      | opening => exact h.step_opening h_size (h_eq ▸ h_role)
      | closing => exact h.step_closing (h_eq ▸ h_role)
      | leaf => exact h.step_of_ne (h_eq ▸ h_role) Role.noConfusion Role.noConfusion
      | other => exact h.step_of_ne (h_eq ▸ h_role) Role.noConfusion Role.noConfusion

/-! ## The table -/

/-- The latest open bracket is the one that a closing bracket matches. -/
theorem head?_unmatched_iff (h_closing : roles[k]? = some .closing) :
    (scanned level (roles.take k)).unmatched.head? = some i ↔ Matches level roles i k := by
  obtain ⟨h_k, -⟩ := List.getElem?_eq_some_iff.mp h_closing
  have h := follows_scanned level roles (Nat.le_of_lt h_k)
  have h_level := levelAt_succ level h_closing
  have h_change : Role.closing.change = -1 := rfl
  rw [List.head?_eq_getElem?]
  constructor
  · intro h_head
    have h_eq := h.level_eq 0 i h_head
    exact ⟨(h.mem_iff i).mp (List.mem_of_getElem? h_head), h_closing, by omega⟩
  · intro h_match
    -- An open bracket whose level is the next lower one is the latest.
    obtain ⟨n, h_n⟩ := List.mem_iff_getElem?.mp ((h.mem_iff i).mpr h_match.openAt)
    have h_eq := h.level_eq n i h_n
    have h_back := h_match.back
    obtain rfl : n = 0 := by omega
    exact h_n

/-- One more symbol: its own entry, and the entry of the bracket that it closes. -/
theorem Scan.join_partners_step (scan : Scan) (role : Role) (i j : Nat) :
    (scan.step role).partners[i]?.join = some j ↔
      i = scan.partners.size ∧ role = .closing ∧ scan.unmatched.head? = some j ∨
      i < scan.partners.size ∧ if role = .closing ∧ scan.unmatched.head? = some i then
        scan.partners.size = j else scan.partners[i]?.join = some j := by
  rw [getElem?_partners_step]
  rcases Nat.lt_trichotomy i scan.partners.size with h_lt | rfl | h_gt
  · rw [if_neg (Nat.ne_of_lt h_lt), or_iff_right (fun h => absurd h.1 (Nat.ne_of_lt h_lt)),
      and_iff_right h_lt]
    split
    · rw [Array.getElem?_eq_getElem h_lt, Option.map_some, Option.join_some, Option.some_inj]
    · exact Iff.rfl
  · rw [if_pos rfl, Option.join_some, Option.ite_none_right_eq_some, and_iff_right rfl,
      or_iff_left (fun h => Nat.lt_irrefl _ h.1)]
  · have h_none : scan.partners[i]? = none := Array.getElem?_eq_none (Nat.le_of_lt h_gt)
    rw [if_neg (Nat.ne_of_gt h_gt), h_none, Option.map_none, ite_self]
    refine ⟨fun h => (by cases h), ?_⟩
    rintro (h | h)
    · exact absurd h.1 (Nat.ne_of_gt h_gt)
    · exact absurd h.1 (Nat.lt_asymm h_gt)

/-- After a part of the word, the table holds the matching pairs within that part. -/
theorem join_partners_scanned (level : Int) (h_k : k ≤ roles.length) (i j : Nat) :
    (scanned level (roles.take k)).partners[i]?.join = some j ↔
      i < k ∧ j < k ∧ (Matches level roles i j ∨ Matches level roles j i) := by
  induction k with
  | zero => simp [scanned, Scan.start]
  | succ k ih =>
      have h_role := List.getElem?_eq_getElem (show k < roles.length from h_k)
      have h_size := size_partners_scanned_take level (Nat.le_of_succ_le h_k)
      have h_head : ∀ a, (roles[k] = .closing ∧
          (scanned level (roles.take k)).unmatched.head? = some a) ↔ Matches level roles a k := by
        intro a
        constructor
        · rintro ⟨h_closing, h_a⟩
          exact (head?_unmatched_iff (h_closing ▸ h_role)).mp h_a
        · intro h_match
          rw [h_match.closing, Option.some_inj] at h_role
          exact ⟨h_role.symm, (head?_unmatched_iff h_match.closing).mpr h_match⟩
      rw [scanned_take_succ level h_role, Scan.join_partners_step, h_size, h_head j,
        ih (Nat.le_of_succ_le h_k)]
      constructor
      · rintro (⟨rfl, h_match⟩ | ⟨h_i, h_entry⟩)
        · exact ⟨Nat.lt_succ_self i, Nat.lt_succ_of_lt h_match.lt, .inr h_match⟩
        · split at h_entry
          next h_closes =>
            obtain rfl := h_entry
            exact ⟨Nat.lt_succ_of_lt h_i, Nat.lt_succ_self k, .inl ((h_head i).mp h_closes)⟩
          next => exact ⟨Nat.lt_succ_of_lt h_i, Nat.lt_succ_of_lt h_entry.2.1, h_entry.2.2⟩
      · rintro ⟨h_i, h_j, h_pair⟩
        rcases Nat.eq_or_lt_of_le (Nat.le_of_lt_succ h_i) with rfl | h_i
        · refine .inl ⟨rfl, h_pair.resolve_left fun h_match => ?_⟩
          exact absurd h_match.lt (Nat.not_lt.mpr (Nat.le_of_lt_succ h_j))
        · refine .inr ⟨h_i, ?_⟩
          -- A pair that ends at the new symbol was not there before, and no other is lost.
          split
          next h_closes =>
            have h_match := (h_head i).mp h_closes
            rcases h_pair with h_pair | h_pair
            · exact h_match.right_unique h_pair
            · exact absurd h_match h_pair.not_symm
          next h_not =>
            refine ⟨h_i, Nat.lt_of_le_of_ne (Nat.le_of_lt_succ h_j) ?_, h_pair⟩
            rintro rfl
            rcases h_pair with h_pair | h_pair
            · exact h_not ((h_head i).mpr h_pair)
            · exact absurd h_pair.lt (Nat.lt_asymm h_i)

/-- **The table holds the matching pairs.** -/
theorem partner?_eq_some_iff (level : Int) (roles : List Role) (i j : Nat) :
    (ofRoles level roles).partner? i = some j ↔
      Matches level roles i j ∨ Matches level roles j i := by
  have h_table := join_partners_scanned level (Nat.le_refl roles.length) i j
  rw [List.take_length] at h_table
  rw [partner?_ofRoles, h_table]
  refine ⟨fun h => h.2.2, fun h => ?_⟩
  have h_lt : ∀ {a b : Nat}, Matches level roles a b → a < roles.length ∧ b < roles.length :=
    fun h_ab => ⟨(List.getElem?_eq_some_iff.mp h_ab.openAt.opening).1,
      (List.getElem?_eq_some_iff.mp h_ab.closing).1⟩
  rcases h with h | h
  · exact ⟨(h_lt h).1, (h_lt h).2, .inl h⟩
  · exact ⟨(h_lt h).2, (h_lt h).1, .inr h⟩

/-- A closing bracket has no partner exactly if the level falls to a new low after it. -/
theorem partner?_eq_none_iff_of_closing (h : roles[j]? = some .closing) :
    (ofRoles level roles).partner? j = none ↔
      ∀ k ≤ j, levelAt level roles (j + 1) < levelAt level roles k := by
  obtain ⟨h_j, -⟩ := List.getElem?_eq_some_iff.mp h
  have h_follows := follows_scanned level roles (Nat.le_of_lt h_j)
  have h_level := levelAt_succ level h
  have h_change : Role.closing.change = -1 := rfl
  rw [partner?_of_closing level h, List.head?_eq_none_iff]
  constructor
  · intro h_nil k h_k
    have h_floor := h_follows.floor_le k h_k
    rw [h_nil, List.length_nil] at h_floor
    omega
  · intro h_low
    by_contra h_ne
    obtain ⟨i, rest, h_cons⟩ := List.exists_cons_of_ne_nil h_ne
    have h_i : i ∈ (scanned level (roles.take j)).unmatched := by
      rw [h_cons]
      exact List.mem_cons_self
    -- The latest open bracket is at the level that the closing one falls to.
    have h_eq := h_follows.level_eq 0 i (by rw [h_cons]; rfl)
    have h_lt := h_low i (Nat.le_of_lt ((h_follows.mem_iff i).mp h_i).lt)
    omega

/-- If every closing bracket has a partner, the level never falls below the start. -/
theorem le_levelAt_of_paired (h_paired : ∀ i, roles[i]? = some .closing →
    ((ofRoles level roles).partner? i).isSome = true) (h_k : k ≤ roles.length) :
    level ≤ levelAt level roles k := by
  induction k using Nat.strongRecOn with
  | ind k ih =>
      cases k with
      | zero => exact Int.le_of_eq (levelAt_zero level roles).symm
      | succ k =>
          -- The first symbol after which the level is below the start closes, and has no partner.
          by_contra h_below
          have h_role := List.getElem?_eq_getElem (show k < roles.length from h_k)
          have h_level := levelAt_succ level h_role
          have h_start := ih k (Nat.lt_succ_self k) (Nat.le_of_succ_le h_k)
          have h_down : roles[k].change < 0 := by omega
          rw [Role.eq_closing_of_change_neg h_down] at h_role
          have h_none : (ofRoles level roles).partner? k = none := by
            refine (partner?_eq_none_iff_of_closing h_role).mpr fun i h_i => ?_
            have h_before := ih i (Nat.lt_succ_of_le h_i) (by omega)
            omega
          have h_some := h_paired k h_role
          rw [h_none] at h_some
          cases h_some

/-- A word is balanced exactly if all its brackets have partners. -/
theorem isBalanced_iff_paired (level : Int) (roles : List Role) :
    (ofRoles level roles).isBalanced = true ↔
      ∀ i, roles[i]? = some .opening ∨ roles[i]? = some .closing →
        ((ofRoles level roles).partner? i).isSome = true := by
  have h_follows := follows_scanned level roles (Nat.le_refl roles.length)
  rw [List.take_length] at h_follows
  rw [isBalanced_ofRoles]
  constructor
  · rintro ⟨h_final, h_floor⟩ i h_bracket
    rw [Option.isSome_iff_ne_none]
    intro h_none
    -- An opening bracket left over keeps the last level up; a closing one goes below the first.
    rcases h_bracket with h_opening | h_closing
    · have h_i := (partner?_eq_none_iff_of_opening level h_opening).mp h_none
      have h_lt := h_follows.levelAt_lt h_i
      have h_le := h_floor i (Nat.le_of_lt ((h_follows.mem_iff i).mp h_i).lt)
      omega
    · obtain ⟨h_i, -⟩ := List.getElem?_eq_some_iff.mp h_closing
      have h_lt := (partner?_eq_none_iff_of_closing h_closing).mp h_none 0 (Nat.zero_le i)
      have h_le := h_floor (i + 1) h_i
      rw [levelAt_zero] at h_lt
      omega
  · intro h_paired
    have h_floor : ∀ k ≤ roles.length, level ≤ levelAt level roles k :=
      fun k h_k => le_levelAt_of_paired (fun i h_closing => h_paired i (.inr h_closing)) h_k
    -- No opening bracket is left over, so that the last level is not above the first.
    have h_nil : (scanned level roles).unmatched = [] := by
      refine List.eq_nil_iff_forall_not_mem.mpr fun i h_i => ?_
      have h_opening := ((h_follows.mem_iff i).mp h_i).opening
      have h_some := h_paired i (.inl h_opening)
      rw [(partner?_eq_none_iff_of_opening level h_opening).mpr h_i] at h_some
      cases h_some
    have h_last := h_follows.floor_le 0 (Nat.zero_le _)
    rw [h_nil, List.length_nil, levelAt_zero] at h_last
    exact ⟨Int.le_antisymm (by omega) (h_floor _ (Nat.le_refl _)), h_floor⟩

theorem getElem?_levels_eq_iff (level : Int) (h_i : i ≤ roles.length) :
    (ofRoles level roles).levels[j + 1]? = (ofRoles level roles).levels[i]? ↔
      j < roles.length ∧ levelAt level roles (j + 1) = levelAt level roles i := by
  rw [getElem?_levels level h_i]
  by_cases h_j : j < roles.length
  · rw [getElem?_levels level h_j, Option.some_inj, and_iff_right h_j]
  · have h_size := size_levels level roles
    rw [Array.getElem?_eq_none (by omega)]
    exact ⟨fun h => (by cases h), fun h => absurd h.1 h_j⟩

end Table

/-! ## Both views together -/

/-- The partners of a word of roles are as its levels say. -/
structure PairedByLevels (nesting : Nesting) (roles : List Role) : Prop where
  /-- There is a level before every symbol, and one after the last. -/
  size_levels : nesting.levels.size = roles.length + 1
  /-- The partner of an opening bracket is the first later symbol after which the level is
      back. -/
  opening : ∀ i j, roles[i]? = some .opening → (nesting.partner? i = some j ↔
    IsLeast {j | i < j ∧ nesting.levels[j + 1]? = nesting.levels[i]?} j)
  /-- It has none if the level does not come back. -/
  opening_none : ∀ i, roles[i]? = some .opening → (nesting.partner? i = none ↔
    ∀ j > i, nesting.levels[j + 1]? ≠ nesting.levels[i]?)
  /-- A closing bracket has none if the level after it is below all levels before. -/
  closing_none : ∀ j, roles[j]? = some .closing → (nesting.partner? j = none ↔
    ∀ k ≤ j, ∀ before ∈ nesting.levels[k]?, ∀ after ∈ nesting.levels[j + 1]?, after < before)
  symm : ∀ i j, nesting.partner? i = some j → nesting.partner? j = some i
  /-- A pair that begins within another one ends within it. -/
  not_crossing : ∀ i j i' j', nesting.partner? i = some j → nesting.partner? i' = some j' →
    ¬(i < i' ∧ i' < j ∧ j < j')
  /-- Only brackets have partners. -/
  bracket : ∀ i, roles[i]? ≠ some .opening → roles[i]? ≠ some .closing →
    nesting.partner? i = none
  isBalanced_iff : nesting.isBalanced = true ↔
    ∀ i, roles[i]? = some .opening ∨ roles[i]? = some .closing →
      (nesting.partner? i).isSome = true

section Both

variable {level : Int} {roles : List Role} {i j : Nat}

theorem partner?_eq_some_iff_isLeast (h : roles[i]? = some .opening) :
    (ofRoles level roles).partner? i = some j ↔
      IsLeast {j | i < j ∧ (ofRoles level roles).levels[j + 1]? = (ofRoles level roles).levels[i]?}
        j := by
  obtain ⟨h_i, -⟩ := List.getElem?_eq_some_iff.mp h
  have h_symm : ¬Matches level roles j i := by
    intro h_match
    rw [h_match.closing] at h
    cases h
  rw [partner?_eq_some_iff, or_iff_left h_symm, matches_iff_isLeast h]
  simp only [getElem?_levels_eq_iff level (Nat.le_of_lt h_i)]

theorem partner?_eq_none_iff_of_opening_levels (h : roles[i]? = some .opening) :
    (ofRoles level roles).partner? i = none ↔
      ∀ j > i, (ofRoles level roles).levels[j + 1]? ≠ (ofRoles level roles).levels[i]? := by
  constructor
  · intro h_none j h_j h_back
    -- Of the places where the level is back, one is the first.
    classical
    have h_exists : ∃ j, i < j ∧
        (ofRoles level roles).levels[j + 1]? = (ofRoles level roles).levels[i]? := ⟨j, h_j, h_back⟩
    have h_some := (partner?_eq_some_iff_isLeast h).mpr
      ⟨Nat.find_spec h_exists, fun m h_m => Nat.find_min' h_exists h_m⟩
    rw [h_none] at h_some
    cases h_some
  · intro h_never
    cases h_partner : (ofRoles level roles).partner? i with
    | none => rfl
    | some j =>
        obtain ⟨h_j, h_back⟩ := ((partner?_eq_some_iff_isLeast h).mp h_partner).1
        exact absurd h_back (h_never j h_j)

end Both

/-- **The partners and the levels tell the same nesting.**  In every word, whatever symbols
    open and close and whatever level it starts at, the partner of an opening bracket is where
    the level is back for the first time, a closing bracket has no partner exactly if the
    level falls to a new low, and the pairs are symmetric, do not cross and join brackets
    only.  So the word is balanced exactly if every bracket has a partner. -/
theorem pairedByLevels_analyze (isPush isPop : Char → Bool) (leafMarker : Char)
    (initialDepth : Nat) (word : Word) :
    (analyze isPush isPop leafMarker initialDepth word).PairedByLevels
      (word.map (Role.of isPush isPop leafMarker)) := by
  show (ofRoles initialDepth (word.map (Role.of isPush isPop leafMarker))).PairedByLevels _
  generalize word.map (Role.of isPush isPop leafMarker) = roles
  refine ⟨size_levels _ roles, fun i j => partner?_eq_some_iff_isLeast,
    fun i => partner?_eq_none_iff_of_opening_levels, fun j h_closing => ?_, fun i j h => ?_,
    fun i j i' j' h h' => ?_, fun i h_opening h_closing => ?_, isBalanced_iff_paired _ roles⟩
  · obtain ⟨h_j, -⟩ := List.getElem?_eq_some_iff.mp h_closing
    rw [partner?_eq_none_iff_of_closing h_closing, getElem?_levels _ h_j]
    refine forall₂_congr fun k h_k => ?_
    rw [getElem?_levels _ (Nat.le_of_lt (Nat.lt_of_le_of_lt h_k h_j))]
    simp
  · rw [partner?_eq_some_iff] at h ⊢
    exact h.symm
  · rw [partner?_eq_some_iff] at h h'
    rintro ⟨h_i, h_inside, h_j⟩
    -- Both pairs are named from left to right.
    have h := h.resolve_right fun h_match => Nat.lt_asymm h_match.lt (Nat.lt_trans h_i h_inside)
    have h' := h'.resolve_right fun h_match =>
      Nat.lt_asymm h_match.lt (Nat.lt_trans h_inside h_j)
    exact h.not_crossing h' ⟨h_i, h_inside, h_j⟩
  · rw [Option.eq_none_iff_forall_ne_some]
    intro j h
    rcases (partner?_eq_some_iff _ _ _ _).mp h with h | h
    · exact h_opening h.openAt.opening
    · exact h_closing h.closing

/-- After two closing brackets too many the level is below zero, and the pairs go on. -/
example :
    let nesting := analyze (· == '[') (· == ']') 'l' 1 "]][[l]".toList
    nesting.levels = #[1, 0, -1, 0, 1, 1, 0] ∧
      nesting.partners = #[none, none, none, some 5, none, some 3] := by
  decide

end Verdure.Nesting
