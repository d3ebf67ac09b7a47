/-
  Verdure.Proofs.Run.Drawing

  What drawing comes to.

  `BranchStyle.Drawn` and `LeafStyle.Drawn` list the ways a branch and a leaf can end, each
  with the tests that lead to it and the state it leaves, and `Operation.Applied` does so for
  every operation.  `WorldStep` reads off them what one symbol does to the collision world:
  nothing, or one record more that was found to collide with none of the anchors it was
  tested against.
-/
import Verdure.Proofs.Collision.Index
import Verdure.Proofs.Run.Brackets

namespace Verdure

/-! ## Branches -/

namespace BranchStyle

/-- The map from the start of a branch to its tip. -/
def advance (style : BranchStyle) (st : RunState) : Mat4 :=
  .shift ⟨0.0, (style.dimensions st.depth).1, 0.0⟩

/-- The frame of a branch. -/
def frameAt (style : BranchStyle) (st : RunState) : Mat4 :=
  st.turtle.frame * Mat4.scaling ⟨(style.dimensions st.depth).2, (style.dimensions st.depth).1,
    (style.dimensions st.depth).2⟩

/-- The middle of a branch. -/
def middleAt (style : BranchStyle) (st : RunState) : Point :=
  st.turtle.toWorld ⟨0.0, 0.5 * (style.dimensions st.depth).1, 0.0⟩

/-- The axis that stands for a branch in collision tests. -/
def axisAt (style : BranchStyle) (st : RunState) : Segment Float32 :=
  style.axis st.turtle.origin (style.middleAt st) (style.dimensions st.depth).1

/-- The record that a branch collides with, if it does with any that is looked at. -/
def collisionAt (style : BranchStyle) (st : RunState) : Option Collision.RecordId :=
  st.world.branches.collision? (.segment (style.axisAt st)) (style.middleAt st)
    style.neighbors style.clearance

/-- What a branch collides with is the answer of the search, if that can be given its room. -/
theorem findCollision_eq_collisionAt (style : BranchStyle) (st : RunState)
    (h_room : PointTree.HasRoom style.neighbors) :
    st.world.branches.findCollision (.segment (style.axisAt st)) (style.middleAt st)
        style.neighbors style.clearance
      = .ok (style.collisionAt st) := by
  rw [Collision.Index.findCollision_eq, if_pos h_room]
  rfl

/-- How drawing a branch ends, and in which state. -/
inductive Drawn (style : BranchStyle) (st : RunState) : RunState → Prop
  | low (h_low : st.turtle.origin.y < style.minHeight) :
      Drawn style st (st.countGround.move (style.advance st))
  | collides (h_high : ¬st.turtle.origin.y < style.minHeight)
      (h_check : st.scene.influences.collisionCheck = true) (id : Collision.RecordId)
      (h_collision : style.collisionAt st = some id) : Drawn style st st.countCollision
  | stored (h_high : ¬st.turtle.origin.y < style.minHeight)
      (h_check : st.scene.influences.collisionCheck = true)
      (h_free : style.collisionAt st = none) :
      Drawn style st (((st.recordBranch (style.axisAt st) (style.middleAt st)).placeBranch
        (style.frameAt st)).move (style.advance st))
  | untested (h_high : ¬st.turtle.origin.y < style.minHeight)
      (h_check : st.scene.influences.collisionCheck = false) :
      Drawn style st ((st.placeBranch (style.frameAt st)).move (style.advance st))

theorem drawn (style : BranchStyle) (st : RunState) : style.Drawn st (style.draw st) := by
  unfold draw
  dsimp only
  split
  next h_low => exact .low h_low
  next h_high =>
    split
    next h_check =>
      split
      next id h_collision => exact .collides h_high h_check id h_collision
      next h_free => exact .stored h_high h_check h_free
    next h_check => exact .untested h_high (Bool.eq_false_iff.mpr h_check)

/-- A branch is drawn in one way. -/
theorem Drawn.draw_eq {style : BranchStyle} {st drawn : RunState} (h : style.Drawn st drawn) :
    style.draw st = drawn := by
  unfold draw
  dsimp only
  cases h with
  | low h_low => exact if_pos h_low
  | collides h_high h_check id h_collision =>
      unfold collisionAt axisAt middleAt at h_collision
      rw [if_neg h_high, if_pos h_check, h_collision]
  | stored h_high h_check h_free =>
      unfold collisionAt axisAt middleAt at h_free
      rw [if_neg h_high, if_pos h_check, h_free]
      rfl
  | untested h_high h_check =>
      rw [if_neg h_high, if_neg (Bool.eq_false_iff.mp h_check)]
      rfl

/-- A branch that passes all tests is the next record. -/
theorem getElem?_records_draw {style : BranchStyle} {st : RunState}
    (h_high : ¬st.turtle.origin.y < style.minHeight)
    (h_check : st.scene.influences.collisionCheck = true)
    (h_free : style.collisionAt st = none) (i : Nat) :
    (style.draw st).world.branches.records[i]?
      = if i = st.world.branches.size then some (.segment (style.axisAt st))
        else st.world.branches.records[i]? := by
  rw [(Drawn.stored h_high h_check h_free).draw_eq]
  exact Collision.Index.getElem?_records_add _ _ _ _

end BranchStyle

/-! ## Leaves -/

namespace LeafStyle

/-- The frame of a leaf. -/
def frameAt (style : LeafStyle) (st : RunState) : Mat4 :=
  st.turtle.frame * Mat4.rotationZ (Mat4.radians style.angle) * Mat4.scaling (.splat style.scale)

/-- The place of a leaf. -/
def placeAt (style : LeafStyle) (st : RunState) : Point := (style.frameAt st).wAxis.truncate

/-- The box that stands for a leaf in collision tests. -/
def boxAt (style : LeafStyle) (st : RunState) (spacing : Float32) : Box Float32 :=
  .around (style.placeAt st) (.splat (spacing * 0.5))

/-- The record that a leaf collides with, if it does with any that is looked at. -/
def collisionAt (style : LeafStyle) (st : RunState) (spacing : Float32) :
    Option Collision.RecordId :=
  st.world.leaves.collision? (.box (style.boxAt st spacing)) (style.placeAt st)
    style.neighbors 0.0

/-- What a leaf collides with is the answer of the search, if that can be given its room. -/
theorem findCollision_eq_collisionAt (style : LeafStyle) (st : RunState) (spacing : Float32)
    (h_room : PointTree.HasRoom style.neighbors) :
    st.world.leaves.findCollision (.box (style.boxAt st spacing)) (style.placeAt st)
        style.neighbors 0.0
      = .ok (style.collisionAt st spacing) := by
  rw [Collision.Index.findCollision_eq, if_pos h_room]
  rfl

/-- How drawing a leaf ends, and in which state. -/
inductive Drawn (style : LeafStyle) (env : Surroundings) (st : RunState) : RunState → Prop
  | skipped (h_skip : st.depth < style.minDepth ∨ st.scene.leaves.isEmpty = true) :
      Drawn style env st st
  | low (h_fits : ¬(st.depth < style.minDepth ∨ st.scene.leaves.isEmpty = true))
      (h_low : (style.placeAt st).y < style.minHeight) : Drawn style env st st.countGround
  | untested (h_fits : ¬(st.depth < style.minDepth ∨ st.scene.leaves.isEmpty = true))
      (h_high : ¬(style.placeAt st).y < style.minHeight) (h_spacing : style.minSpacing = none) :
      Drawn style env st (st.placeLeaf (style.variantAt env st) (style.frameAt st))
  | collides (h_fits : ¬(st.depth < style.minDepth ∨ st.scene.leaves.isEmpty = true))
      (h_high : ¬(style.placeAt st).y < style.minHeight) (spacing : Float32)
      (h_spacing : style.minSpacing = some spacing) (id : Collision.RecordId)
      (h_collision : style.collisionAt st spacing = some id) :
      Drawn style env st st.countCollision
  | stored (h_fits : ¬(st.depth < style.minDepth ∨ st.scene.leaves.isEmpty = true))
      (h_high : ¬(style.placeAt st).y < style.minHeight) (spacing : Float32)
      (h_spacing : style.minSpacing = some spacing)
      (h_free : style.collisionAt st spacing = none) :
      Drawn style env st ((st.recordLeaf (style.boxAt st spacing) (style.placeAt st)).placeLeaf
        (style.variantAt env st) (style.frameAt st))

theorem drawn (style : LeafStyle) (env : Surroundings) (st : RunState) :
    style.Drawn env st (style.draw env st) := by
  unfold draw
  dsimp only
  split
  next h_skip => exact .skipped h_skip
  next h_fits =>
    split
    next h_low => exact .low h_fits h_low
    next h_high =>
      split
      next h_spacing => exact .untested h_fits h_high h_spacing
      next spacing h_spacing =>
        split
        next id h_collision => exact .collides h_fits h_high spacing h_spacing id h_collision
        next h_free => exact .stored h_fits h_high spacing h_spacing h_free

/-- A leaf is drawn in one way. -/
theorem Drawn.draw_eq {style : LeafStyle} {env : Surroundings} {st drawn : RunState}
    (h : style.Drawn env st drawn) : style.draw env st = drawn := by
  unfold draw
  dsimp only
  cases h with
  | skipped h_skip => exact if_pos h_skip
  | low h_fits h_low =>
      unfold placeAt frameAt at h_low
      rw [if_neg h_fits, if_pos h_low]
  | untested h_fits h_high h_spacing =>
      unfold placeAt frameAt at h_high
      rw [if_neg h_fits, if_neg h_high, h_spacing]
      rfl
  | collides h_fits h_high spacing h_spacing id h_collision =>
      unfold placeAt frameAt at h_high
      unfold collisionAt boxAt placeAt frameAt at h_collision
      rw [if_neg h_fits, if_neg h_high, h_spacing]
      dsimp only
      rw [h_collision]
  | stored h_fits h_high spacing h_spacing h_free =>
      unfold placeAt frameAt at h_high
      unfold collisionAt boxAt placeAt frameAt at h_free
      rw [if_neg h_fits, if_neg h_high, h_spacing]
      dsimp only
      rw [h_free]
      rfl

end LeafStyle

/-! ## Operations -/

/-- How an operation that succeeds ends, and in which state. -/
inductive Operation.Applied (env : Surroundings) (st : RunState) : Operation → RunState → Prop
  | branch {style : BranchStyle} {drawn : RunState} (h_drawn : style.Drawn st drawn) :
      Applied env st (.branch style) drawn
  | leaf {style : LeafStyle} {drawn : RunState} (h_drawn : style.Drawn env st drawn) :
      Applied env st (.leaf style) drawn
  | rotate (turn : Turn) :
      Applied env st (.rotate turn) (st.move (.rotationY (turn.radians env st)))
  | tilt (turn : Turn) :
      Applied env st (.tilt turn) (st.move (.rotationZ (turn.radians env st)))
  | push : Applied env st .push st.save
  | pop (saved : Turtle) (stack : List Turtle) (h_stack : st.stack = saved :: stack) :
      Applied env st .pop { st with turtle := saved, stack, depth := st.depth - 1 }
  | tick (pull : Pull) : Applied env st (.tick pull) (pull.bend st)

theorem Operation.applied {operation : Operation} {env : Surroundings} {st st' : RunState}
    (h : operation.apply env st = .ok st') : operation.Applied env st st' := by
  cases operation with
  | branch style =>
      cases h
      exact .branch (style.drawn st)
  | leaf style =>
      cases h
      exact .leaf (style.drawn env st)
  | rotate turn =>
      cases h
      exact .rotate turn
  | tilt turn =>
      cases h
      exact .tilt turn
  | push =>
      cases h
      exact .push
  | pop =>
      cases h_stack : st.stack with
      | nil =>
          simp only [apply, RunState.restore, h_stack] at h
          cases h
      | cons saved stack =>
          simp only [apply, RunState.restore, h_stack] at h
          cases h
          exact .pop saved stack h_stack
  | tick pull =>
      cases h
      exact .tick pull

/-- An operation ends in one way. -/
theorem Operation.Applied.apply_eq {operation : Operation} {env : Surroundings}
    {st st' : RunState} (h : operation.Applied env st st') : operation.apply env st = .ok st' := by
  cases h with
  | branch h_drawn => exact congrArg Except.ok h_drawn.draw_eq
  | leaf h_drawn => exact congrArg Except.ok h_drawn.draw_eq
  | pop saved stack h_stack => simp only [apply, RunState.restore, h_stack]
  | rotate | tilt | push | tick => rfl

namespace Bindings

/-- A step over a symbol without an operation changes nothing, and any other one is that of
    the operation. -/
theorem step_cases {bindings : Bindings} {env : Surroundings} {k : Nat} {symbol : Char}
    {st st' : RunState} (h : bindings.step env k symbol st = .ok st') :
    (bindings.operation? symbol = none ∧ st' = st) ∨
    ∃ operation next, bindings.operation? symbol = some operation ∧
      operation.Applied env { st with index := k } next ∧ st' = next.countSymbol := by
  unfold step at h
  split at h
  next h_operation =>
    cases h
    exact .inl ⟨h_operation, rfl⟩
  next operation h_operation =>
    split at h
    next next h_apply =>
      cases h
      exact .inr ⟨operation, next, h_operation, Operation.applied h_apply, rfl⟩
    next => cases h

theorem step_of_unbound {bindings : Bindings} {symbol : Char}
    (h : bindings.operation? symbol = none) (env : Surroundings) (k : Nat) (st : RunState) :
    bindings.step env k symbol st = .ok st := by
  rw [step, h]

theorem step_of_applied {bindings : Bindings} {env : Surroundings} {k : Nat} {symbol : Char}
    {operation : Operation} {st next : RunState}
    (h_operation : bindings.operation? symbol = some operation)
    (h_applied : operation.Applied env { st with index := k } next) :
    bindings.step env k symbol st = .ok next.countSymbol := by
  rw [step, h_operation]
  simp only [h_applied.apply_eq]

theorem step_branch {bindings : Bindings} {symbol : Char} {style : BranchStyle}
    (h : bindings.operation? symbol = some (.branch style)) (env : Surroundings) (k : Nat)
    (st : RunState) :
    bindings.step env k symbol st = .ok (style.draw { st with index := k }).countSymbol := by
  rw [step, h]
  rfl

/-! ## The collision world -/

/-- What a symbol can do to the collision world. -/
inductive WorldStep (bindings : Bindings) (symbol : Char) (st : RunState) :
    Collision.World → Prop
  | same : WorldStep bindings symbol st st.world
  | branch (style : BranchStyle) (h_operation : bindings.operation? symbol = some (.branch style))
      (h_free : style.collisionAt st = none) :
      WorldStep bindings symbol st { st.world with
        branches := (st.world.branches.add (.segment (style.axisAt st))
          [style.middleAt st, (style.axisAt st).start, (style.axisAt st).stop]).1 }
  | leaf (style : LeafStyle) (h_operation : bindings.operation? symbol = some (.leaf style))
      (spacing : Float32) (h_spacing : style.minSpacing = some spacing)
      (h_free : style.collisionAt st spacing = none) :
      WorldStep bindings symbol st { st.world with
        leaves := (st.world.leaves.add (.box (style.boxAt st spacing)) [style.placeAt st]).1 }

theorem worldStep {bindings : Bindings} {env : Surroundings} {k : Nat} {symbol : Char}
    {st st' : RunState} (h : bindings.step env k symbol st = .ok st') :
    bindings.WorldStep symbol st st'.world := by
  rcases step_cases h with ⟨-, rfl⟩ | ⟨operation, next, h_operation, h_applied, rfl⟩
  · exact .same
  show bindings.WorldStep symbol st next.world
  cases h_applied with
  | branch h_drawn =>
      cases h_drawn with
      | low => exact .same
      | collides => exact .same
      | stored _ _ h_free => exact .branch _ h_operation h_free
      | untested => exact .same
  | leaf h_drawn =>
      cases h_drawn with
      | skipped => exact .same
      | low => exact .same
      | untested => exact .same
      | collides => exact .same
      | stored _ _ spacing h_spacing h_free => exact .leaf _ h_operation spacing h_spacing h_free
  | rotate => exact .same
  | tilt => exact .same
  | push => exact .same
  | pop => exact .same
  | tick => exact .same

/-- A symbol stores one record at most. -/
theorem RunsTo.size_le {bindings : Bindings} {noise : Noise.Source} {word : Word} {scene : Scene}
    {world : Collision.World} {k : Nat} {st : RunState}
    (h : bindings.RunsTo noise word scene world k st) :
    st.world.branches.size ≤ world.branches.size + k ∧
      st.world.leaves.size ≤ world.leaves.size + k := by
  induction h with
  | start => exact ⟨Nat.le_refl _, Nat.le_refl _⟩
  | step _ _ h_step ih =>
      have h_world := worldStep h_step
      generalize RunState.world _ = after at h_world ⊢
      cases h_world with
      | same => omega
      | branch =>
          rw [Collision.Index.size_add]
          dsimp only
          omega
      | leaf =>
          rw [Collision.Index.size_add]
          dsimp only
          omega

end Bindings

end Verdure
