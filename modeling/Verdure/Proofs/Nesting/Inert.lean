/-
  Verdure.Proofs.Nesting.Inert

  Symbols that are nothing to the nesting: no brackets, and no leaf marker.

  They change no level, so a word has the same levels without them.  The look-ahead needs
  more care.  A walk to the right stops after any symbol with a level of zero or less, and
  such a symbol may be an inert one; it is only from positive levels that a walk stops at
  brackets alone, and so finds the same leaves without the inert symbols
  (`meetsLeaf_filter`).
-/
import Verdure.Proofs.Nesting.LeafAhead

namespace Verdure.Nesting

/-- The symbol is no bracket and does not mark a leaf. -/
structure Inert (isPush isPop : Char → Bool) (leafMarker symbol : Char) : Prop where
  not_push : isPush symbol = false
  not_pop : isPop symbol = false
  not_leaf : symbol ≠ leafMarker

section Filter

variable {isPush isPop : Char → Bool} {leafMarker : Char} {acts : Char → Bool}

theorem Inert.levelAfter_eq {symbol : Char} (h : Inert isPush isPop leafMarker symbol)
    (level : Int) : levelAfter isPush isPop leafMarker level symbol = level := by
  simp [levelAfter, h.not_push, h.not_pop, h.not_leaf]

variable (h_inert : ∀ symbol, acts symbol = false → Inert isPush isPop leafMarker symbol)
include h_inert

theorem foldl_levelAfter_filter (level : Int) (word : Word) :
    (word.filter acts).foldl (levelAfter isPush isPop leafMarker) level
      = word.foldl (levelAfter isPush isPop leafMarker) level := by
  induction word generalizing level with
  | nil => rfl
  | cons symbol rest ih =>
      cases h_acts : acts symbol with
      | true => rw [List.filter_cons_of_pos h_acts, List.foldl_cons, List.foldl_cons, ih]
      | false =>
          rw [List.filter_cons_of_neg (Bool.eq_false_iff.mp h_acts), List.foldl_cons,
            (h_inert symbol h_acts).levelAfter_eq, ih]

/-- From a positive level, a walk meets the same leaves without inert symbols. -/
theorem meetsLeaf_filter (start : Int) {level : Int} (h_level : 0 < level) (word : Word) :
    meetsLeaf isPush isPop leafMarker start level (word.filter acts)
      = meetsLeaf isPush isPop leafMarker start level word := by
  induction word generalizing level with
  | nil => rfl
  | cons symbol rest ih =>
      cases h_acts : acts symbol with
      | true =>
          rw [List.filter_cons_of_pos h_acts, meetsLeaf, meetsLeaf]
          by_cases h_after : levelAfter isPush isPop leafMarker level symbol ≤ 0
          · rw [if_pos h_after, if_pos h_after]
          · rw [ih (Int.not_le.mp h_after)]
      | false =>
          have h_symbol := h_inert symbol h_acts
          have h_not : (!isPush symbol && symbol = leafMarker && start < level) = false := by
            simp [h_symbol.not_leaf]
          rw [List.filter_cons_of_neg (Bool.eq_false_iff.mp h_acts), meetsLeaf, h_not,
            h_symbol.levelAfter_eq, if_neg Bool.false_ne_true, if_neg (Int.not_le.mpr h_level),
            ih h_level]

end Filter

/-- The look-ahead at a symbol, by the symbols before it and those after it. -/
theorem deeperLeafAhead_append (isPush isPop : Char → Bool) (leafMarker : Char)
    (initialDepth : Nat) (before rest : Word) (symbol : Char) :
    (analyze isPush isPop leafMarker initialDepth (before ++ symbol :: rest)).deeperLeafAhead
        before.length
      = let start := levelAfter isPush isPop leafMarker
          (before.foldl (levelAfter isPush isPop leafMarker) initialDepth) symbol
        meetsLeaf isPush isPop leafMarker start start rest := by
  rw [deeperLeafAhead, analyze, ofRoles_deeperLeaf, List.getElem?_toArray, getElem?_deeper,
    List.drop_left, List.take_left, List.drop_append, List.drop_eq_nil_of_le (by omega),
    Nat.add_sub_cancel_left]
  rfl

/-- The look-ahead at a symbol after which the level is positive is the same without inert
    symbols. -/
theorem deeperLeafAhead_filter {isPush isPop : Char → Bool} {leafMarker : Char}
    {acts : Char → Bool}
    (h_inert : ∀ symbol, acts symbol = false → Inert isPush isPop leafMarker symbol)
    (initialDepth : Nat) (before rest : Word) {symbol : Char} (h_acts : acts symbol = true)
    (h_level : 0 < levelAfter isPush isPop leafMarker
      (before.foldl (levelAfter isPush isPop leafMarker) initialDepth) symbol) :
    (analyze isPush isPop leafMarker initialDepth
        ((before ++ symbol :: rest).filter acts)).deeperLeafAhead (before.filter acts).length
      = (analyze isPush isPop leafMarker initialDepth (before ++ symbol :: rest)).deeperLeafAhead
          before.length := by
  rw [List.filter_append, List.filter_cons_of_pos h_acts, deeperLeafAhead_append,
    deeperLeafAhead_append, foldl_levelAfter_filter h_inert]
  exact meetsLeaf_filter h_inert _ h_level rest

end Verdure.Nesting
