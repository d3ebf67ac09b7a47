/-
  Verdure.Proofs.Nesting.LeafAhead

  The look-ahead for leaves.  One pass from the right answers for every position of a word
  whether a deeper leaf follows; here each of its answers is shown to be the one that a
  walk to the right finds from that position.

  The pass keeps one number, the highest level of a leaf within reach.  `any_highest` says
  what that number knows: for every level to start from, whether a walk meets a leaf above
  it.
-/
import Verdure.Proofs.Nesting.Levels

namespace Verdure.Nesting

/-! ## The walk to the right -/

section Walk

variable (isPush isPop : Char → Bool) (leafMarker : Char)

/-- The level after a symbol, which opens if it can, else is a leaf if it can, and else
    closes if it can. -/
def levelAfter (level : Int) (symbol : Char) : Int :=
  if isPush symbol then level + 1
  else if symbol = leafMarker then level
  else if isPop symbol then level - 1
  else level

/-- A walk that stands at `level` meets a leaf above `start` before the level falls to
    zero. -/
def meetsLeaf (start : Int) : Int → Word → Bool
  | _, [] => false
  | level, symbol :: rest =>
      if !isPush symbol && symbol = leafMarker && start < level then true
      else if levelAfter isPush isPop leafMarker level symbol ≤ 0 then false
      else meetsLeaf start (levelAfter isPush isPop leafMarker level symbol) rest

/-- A walk from the symbol at `i` meets a leaf above the level after that symbol. -/
def walkFrom (initialDepth : Nat) (word : Word) (i : Nat) : Bool :=
  let start := (word.take (i + 1)).foldl (levelAfter isPush isPop leafMarker) initialDepth
  if i < word.length then
    meetsLeaf isPush isPop leafMarker start start (word.drop (i + 1))
  else false

end Walk

/-! ## The pass from the right -/

variable {isPush isPop : Char → Bool} {leafMarker : Char}

/-- What the pass from the right knows of a word of roles that is entered at a level. -/
def aheadOf (level : Int) (roles : List Role) : Ahead :=
  (roles.zip (levelsAfter level roles)).foldr (fun (role, after) => Ahead.cons role after) {}

theorem aheadOf_cons (level : Int) (role : Role) (rest : List Role) :
    aheadOf level (role :: rest)
      = (aheadOf (level + role.change) rest).cons role (level + role.change) := rfl

theorem ofRoles_deeperLeaf (level : Int) (roles : List Role) :
    (ofRoles level roles).deeperLeaf = (aheadOf level roles).deeper.toArray := by
  have h_levels : (roles.foldl Scan.step (.start level)).levels.toList.drop 1
      = levelsAfter level roles := by
    rw [Scan.foldl_step_levels]
    rfl
  rw [ofRoles, h_levels]
  rfl

theorem add_change_of (level : Int) (symbol : Char) :
    level + (Role.of isPush isPop leafMarker symbol).change
      = levelAfter isPush isPop leafMarker level symbol := by
  unfold Role.of levelAfter
  split
  · rfl
  · split
    · exact Int.add_zero level
    · split
      · rfl
      · exact Int.add_zero level

theorem of_eq_leaf_iff (symbol : Char) :
    Role.of isPush isPop leafMarker symbol = .leaf
      ↔ isPush symbol = false ∧ symbol = leafMarker := by
  unfold Role.of
  cases isPush symbol
  · by_cases h_leaf : symbol = leafMarker
    · simp [h_leaf]
    · cases isPop symbol <;> simp [h_leaf]
  · simp

/-- The higher of a level and a highest level exceeds `start` if one of them does. -/
theorem lt_elim_max (start level : Int) (highest : Option Int) :
    decide (start < highest.elim level (max level))
      = (decide (start < level) || highest.any (start < ·)) := by
  cases highest with
  | none => rw [Option.elim_none, Option.any_none, Bool.or_false]
  | some h =>
      rw [Option.elim_some, Option.any_some, ← Bool.decide_or, decide_eq_decide]
      omega

/-- The highest level of a leaf within reach exceeds a start exactly if a walk meets a leaf
    above that start. -/
theorem any_highest (start level : Int) (word : Word) :
    (aheadOf level (word.map (Role.of isPush isPop leafMarker))).highest.any (start < ·)
      = meetsLeaf isPush isPop leafMarker start level word := by
  induction word generalizing level with
  | nil => rfl
  | cons symbol rest ih =>
      rw [List.map_cons, aheadOf_cons, add_change_of, meetsLeaf]
      have h_rest := ih (levelAfter isPush isPop leafMarker level symbol)
      by_cases h_leaf : Role.of isPush isPop leafMarker symbol = .leaf
      · -- A leaf counts at its own level, even if the walk stops right after it.
        obtain ⟨h_push, rfl⟩ := of_eq_leaf_iff symbol |>.mp h_leaf
        have h_same : levelAfter isPush isPop symbol level symbol = level := by
          simp [levelAfter, h_push]
        rw [h_same] at h_rest ⊢
        rw [← h_rest, h_leaf]
        simp only [Ahead.cons, h_push, if_true, Option.any_some, lt_elim_max]
        by_cases h_start : start < level <;> by_cases h_level : level ≤ 0 <;>
          simp [h_start, h_level]
      · have h_not : (!isPush symbol && symbol = leafMarker && start < level) = false := by
          have := mt (of_eq_leaf_iff symbol).mpr h_leaf
          cases h_push : isPush symbol <;> simp_all
        simp only [Ahead.cons, h_leaf, h_not, if_false, Bool.false_eq_true]
        rw [← h_rest]
        split <;> rfl

/-- The answers of the pass, one for each symbol. -/
theorem getElem?_deeper (level : Int) (word : Word) (i : Nat) :
    (aheadOf level (word.map (Role.of isPush isPop leafMarker))).deeper[i]?
      = (word.drop i).head?.map fun symbol =>
          let start := levelAfter isPush isPop leafMarker
            ((word.take i).foldl (levelAfter isPush isPop leafMarker) level) symbol
          meetsLeaf isPush isPop leafMarker start start (word.drop (i + 1)) := by
  induction word generalizing level i with
  | nil => simp [aheadOf]
  | cons symbol rest ih =>
      rw [List.map_cons, aheadOf_cons, add_change_of]
      -- The answer for the first symbol looks at the rest of the word only.
      cases i with
      | zero =>
          show some (Option.any _ _) = _
          rw [any_highest]
          rfl
      | succ i =>
          show (aheadOf _ (rest.map _)).deeper[i]? = _
          rw [ih]
          rfl

/-- **The look-ahead is the walk.**  Whatever the brackets, the leaf marker and the depth to
    start from, the table answers for each position what a walk to the right from that
    position finds, and `false` beyond the last symbol. -/
theorem deeperLeafAhead_analyze (isPush isPop : Char → Bool) (leafMarker : Char)
    (initialDepth : Nat) (word : Word) (i : Nat) :
    (analyze isPush isPop leafMarker initialDepth word).deeperLeafAhead i
      = walkFrom isPush isPop leafMarker initialDepth word i := by
  rw [deeperLeafAhead, analyze, ofRoles_deeperLeaf, List.getElem?_toArray, getElem?_deeper,
    walkFrom]
  by_cases h_i : i < word.length
  · rw [if_pos h_i, List.drop_eq_getElem_cons h_i, List.take_succ_eq_append_getElem h_i,
      List.foldl_append]
    rfl
  · rw [if_neg h_i, List.drop_eq_nil_of_le (Nat.le_of_not_lt h_i)]
    rfl

end Verdure.Nesting
