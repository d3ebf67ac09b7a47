/-
  Verdure.Proofs.Nesting.Levels

  The levels that the scan of a word collects: the level before the first symbol, and then
  the level after each symbol in turn.  `levelAt` gives the level at a position as the sum
  of the changes before it.
-/
import Verdure.Nesting
import Mathlib.Algebra.Ring.Int.Defs

namespace Verdure

namespace Role

theorem neg_one_le_change (role : Role) : -1 ≤ role.change := by
  cases role <;> decide

theorem eq_closing_of_change_neg {role : Role} (h : role.change < 0) : role = .closing := by
  cases role with
  | closing => rfl
  | opening | leaf | other => exact absurd h (by decide)

theorem change_of_ne {role : Role} (h_opening : role ≠ .opening) (h_closing : role ≠ .closing) :
    role.change = 0 := by
  cases role with
  | opening => exact absurd rfl h_opening
  | closing => exact absurd rfl h_closing
  | leaf | other => rfl

end Role

namespace Nesting

/-- The level after each symbol of a word of roles. -/
def levelsAfter : Int → List Role → List Int
  | _, [] => []
  | level, role :: rest => (level + role.change) :: levelsAfter (level + role.change) rest

namespace Scan

/-- One more symbol: its change of level is applied, whatever the brackets do. -/
theorem step_level (scan : Scan) (role : Role) :
    (scan.step role).level = scan.level + role.change := by
  unfold step
  split <;> rfl

theorem step_levels (scan : Scan) (role : Role) :
    (scan.step role).levels = scan.levels.push (scan.level + role.change) := by
  unfold step
  split <;> rfl

/-- The levels of a scan go on with the level after each symbol. -/
theorem foldl_step_levels (scan : Scan) (roles : List Role) :
    (roles.foldl step scan).levels.toList
      = scan.levels.toList ++ levelsAfter scan.level roles := by
  induction roles generalizing scan with
  | nil => simp [levelsAfter]
  | cons role rest ih =>
      rw [List.foldl_cons, ih, step_levels, step_level, Array.toList_push, List.append_assoc]
      rfl

end Scan

theorem ofRoles_levels (level : Int) (roles : List Role) :
    (ofRoles level roles).levels.toList = level :: levelsAfter level roles := by
  show (roles.foldl Scan.step (.start level)).levels.toList = _
  rw [Scan.foldl_step_levels]
  rfl

/-! ## The level at a position -/

/-- The level at a position: the level to start from, and the changes before the position. -/
def levelAt (level : Int) (roles : List Role) (k : Nat) : Int :=
  level + ((roles.take k).map Role.change).sum

theorem levelAt_zero (level : Int) (roles : List Role) : levelAt level roles 0 = level := by
  simp [levelAt]

theorem levelAt_succ (level : Int) {roles : List Role} {k : Nat} {role : Role}
    (h : roles[k]? = some role) :
    levelAt level roles (k + 1) = levelAt level roles k + role.change := by
  rw [levelAt, levelAt, List.take_add_one, h, List.map_append, List.sum_append, Int.add_assoc]
  simp

theorem length_levelsAfter (level : Int) (roles : List Role) :
    (levelsAfter level roles).length = roles.length := by
  induction roles generalizing level with
  | nil => rfl
  | cons role rest ih => rw [levelsAfter, List.length_cons, List.length_cons, ih]

theorem size_levels (level : Int) (roles : List Role) :
    (ofRoles level roles).levels.size = roles.length + 1 := by
  rw [← Array.length_toList, ofRoles_levels, List.length_cons, length_levelsAfter]

theorem getElem?_levels (level : Int) {roles : List Role} {k : Nat} (h : k ≤ roles.length) :
    (ofRoles level roles).levels[k]? = some (levelAt level roles k) := by
  rw [← Array.getElem?_toList, ofRoles_levels]
  induction roles generalizing level k with
  | nil =>
      obtain rfl := Nat.le_zero.mp h
      simp [levelAt]
  | cons role rest ih =>
      cases k with
      | zero => simp [levelAt]
      | succ k =>
          rw [List.getElem?_cons_succ, levelsAfter, ih _ (Nat.le_of_succ_le_succ h)]
          simp only [levelAt, List.take_succ_cons, List.map_cons, List.sum_cons, Int.add_assoc]

theorem getElem_levels (level : Int) {roles : List Role} {k : Nat}
    (h : k < (ofRoles level roles).levels.size) :
    (ofRoles level roles).levels[k] = levelAt level roles k := by
  have h_size := size_levels level roles
  have h_level := getElem?_levels level (show k ≤ roles.length by omega)
  rw [Array.getElem?_eq_some_iff] at h_level
  obtain ⟨_, h_level⟩ := h_level
  exact h_level

theorem finalLevel_ofRoles (level : Int) (roles : List Role) :
    (ofRoles level roles).finalLevel = levelAt level roles roles.length := by
  rw [finalLevel, Array.back?_eq_getElem?, size_levels, Nat.add_sub_cancel,
    getElem?_levels level (Nat.le_refl _), Option.getD_some]

/-- A word of roles is balanced if its level returns to the start and is never below it. -/
theorem isBalanced_ofRoles (level : Int) (roles : List Role) :
    (ofRoles level roles).isBalanced = true ↔
      levelAt level roles roles.length = level ∧
        ∀ k ≤ roles.length, level ≤ levelAt level roles k := by
  have h_all : (ofRoles level roles).levels.all (level ≤ ·) = true ↔
      ∀ k ≤ roles.length, level ≤ levelAt level roles k := by
    have h_size := size_levels level roles
    rw [Array.all_eq_true]
    refine forall_congr' fun k => ⟨fun h h_k => ?_, fun h h_k => ?_⟩
    · rw [← getElem_levels level (by omega)]
      exact of_decide_eq_true (h (by omega))
    · rw [getElem_levels]
      exact decide_eq_true (h (by omega))
  unfold isBalanced
  rw [getElem?_levels level (Nat.zero_le _), levelAt_zero]
  simp only [Bool.and_eq_true, beq_iff_eq, finalLevel_ofRoles, h_all]

end Nesting

end Verdure
