/-
  Verdure.Proofs.Run.LeafSinks

  The sinks for leaves.

  A leaf goes to the end of one sink.  `Dealt` says that leaves went to the sinks in a given
  order, and leaves open which sink each one went to; so it fixes what all sinks together
  hold, and how many leaves that is.
-/
import Verdure.Run.Step
import Mathlib.Data.List.Perm.Basic

namespace Verdure

/-! ## All leaves -/

/-- The leaves in all sinks. -/
def leavesOf (sinks : Array (Array Mat4)) : List Mat4 := sinks.toList.flatMap Array.toList

theorem length_leavesOf (scene : Scene) : (leavesOf scene.leaves).length = scene.leafCount := by
  have h_fold : ∀ (sinks : List (Array Mat4)) (count : Nat),
      sinks.foldl (fun count sink => count + sink.size) count
        = count + (sinks.flatMap Array.toList).length := by
    intro sinks
    induction sinks with
    | nil => exact fun count => rfl
    | cons sink rest ih =>
        intro count
        rw [List.foldl_cons, ih, List.flatMap_cons, List.length_append, ← Nat.add_assoc]
        rfl
  rw [leavesOf, Scene.leafCount, ← Array.foldl_toList, h_fold, Nat.zero_add]

/-- One more leaf in a sink is one more leaf in all of them. -/
theorem leavesOf_modify (sinks : Array (Array Mat4)) {variant : Nat} (h : variant < sinks.size)
    (frame : Mat4) :
    (leavesOf (sinks.modify variant (·.push frame))).Perm (leavesOf sinks ++ [frame]) := by
  have h_variant : variant < sinks.toList.length := h
  -- Both sides by the sinks before the one that takes the leaf, that one, and those after it.
  have h_old : leavesOf sinks
      = (sinks.toList.take variant).flatMap Array.toList ++ (sinks.toList[variant].toList ++
          (sinks.toList.drop (variant + 1)).flatMap Array.toList) := by
    rw [← List.flatMap_cons, ← List.drop_eq_getElem_cons h_variant, ← List.flatMap_append,
      List.take_append_drop, leavesOf]
  have h_new : leavesOf (sinks.modify variant (·.push frame))
      = (sinks.toList.take variant).flatMap Array.toList ++ (sinks.toList[variant].toList ++
          ([frame] ++ (sinks.toList.drop (variant + 1)).flatMap Array.toList)) := by
    rw [leavesOf, Array.toList_modify, List.modify_eq_take_cons_drop h_variant,
      List.flatMap_append, List.flatMap_cons, Array.toList_push, List.append_assoc]
  rw [h_old, h_new, List.append_assoc, List.append_assoc]
  exact (List.perm_append_comm.append_left _).append_left _

theorem leafCount_addLeaf (scene : Scene) {variant : Nat} (h : variant < scene.leaves.size)
    (frame : Mat4) : (scene.addLeaf variant frame).leafCount = scene.leafCount + 1 := by
  rw [← length_leavesOf, ← length_leavesOf]
  exact (leavesOf_modify scene.leaves h frame).length_eq.trans (List.length_append ..)

/-! ## Variants -/

namespace LeafStyle

theorem variant_lt (noise : Float32) {count : Nat} (h : 0 < count) :
    variant noise count < count := by
  have h_last : variant noise count ≤ count - 1 := Nat.min_le_right _ _
  omega

/-- The variant of a leaf is one that there is a sink for. -/
theorem variantAt_lt (style : LeafStyle) (env : Surroundings) (st : RunState)
    (h : 0 < st.scene.leaves.size) : style.variantAt env st < st.scene.leaves.size := by
  unfold variantAt
  dsimp only
  split
  · exact variant_lt _ h
  · omega

end LeafStyle

/-! ## Leaves dealt to sinks -/

/-- Leaves went to the sinks in this order, each to the end of one of them. -/
inductive Dealt (sinks : Array (Array Mat4)) : List Mat4 → Array (Array Mat4) → Prop
  | nil : Dealt sinks [] sinks
  | snoc {frames : List Mat4} {filled : Array (Array Mat4)} (h : Dealt sinks frames filled)
      {variant : Nat} (h_variant : variant < filled.size) (frame : Mat4) :
      Dealt sinks (frames ++ [frame]) (filled.modify variant (·.push frame))

namespace Dealt

variable {sinks filled : Array (Array Mat4)} {frames : List Mat4}

theorem size_eq (h : Dealt sinks frames filled) : filled.size = sinks.size := by
  induction h with
  | nil => rfl
  | snoc _ _ _ ih => rw [Array.size_modify, ih]

/-- The sinks hold what they held before, and the leaves dealt to them. -/
theorem leavesOf_perm (h : Dealt sinks frames filled) :
    (leavesOf filled).Perm (leavesOf sinks ++ frames) := by
  induction h with
  | nil => rw [List.append_nil]
  | snoc _ h_variant frame ih =>
      rw [← List.append_assoc]
      exact (leavesOf_modify _ h_variant frame).trans (ih.append_right [frame])

end Dealt

end Verdure
