/-
  Verdure.Proofs.Run.Sinks

  A run adds to the sinks of its scene and reads nothing from them.

  `RunState.addedTo` puts the parts of a state behind those that another scene holds.  As
  long as the two scenes are alike, every operation does the same before and after, so that
  a run in a scene that holds parts is the run in an empty one, with its parts added.
-/
import Verdure.Plant
import Verdure.Proofs.Grammar.Derivation
import Verdure.Proofs.Run.Drawing

namespace Verdure

/-! ## Parts of a scene -/

/-- Parts for the sinks of a scene. -/
structure Parts where
  branches : Array Mat4
  /-- The leaves by variant. -/
  leaves : Array (Array Mat4)
  lines : Array (Segment Float32)

namespace Scene

/-- The parts in the sinks of a scene. -/
def parts (scene : Scene) : Parts := ⟨scene.branches, scene.leaves, scene.lines.getD #[]⟩

/-- The scene with parts behind those in its sinks, and a count of collisions.  Lines are
    dropped if the scene has no sink for them. -/
def collect (scene : Scene) (parts : Parts) (collisions : Nat) : Scene :=
  { scene with
    branches := scene.branches ++ parts.branches
    leaves := Array.zipWith (· ++ ·) scene.leaves parts.leaves
    lines := scene.lines.map (· ++ parts.lines)
    collisionCount := collisions }

/-- The scenes have the same environment and as many sinks for leaves. -/
structure Alike (scene scene' : Scene) : Prop where
  influences : scene.influences = scene'.influences
  sunDirection : scene.sunDirection = scene'.sunDirection
  leaves_size : scene.leaves.size = scene'.leaves.size

/-- The scene with empty sinks, one for lines among them. -/
def blank (scene : Scene) : Scene := scene.clearOutputs.withLines

theorem alike_blank (scene : Scene) : scene.blank.Alike scene :=
  ⟨rfl, rfl, Array.size_map⟩

theorem Alike.blank_eq {scene scene' : Scene} (h : scene.Alike scene') :
    scene.blank = scene'.blank := by
  have h_leaves : scene.leaves.map (fun _ => (#[] : Array Mat4))
      = scene'.leaves.map fun _ => #[] := by
    rw [Array.map_const', Array.map_const', h.leaves_size]
  unfold blank clearOutputs withLines
  rw [h_leaves, h.influences, h.sunDirection]

theorem zipWith_append_map_empty (leaves : Array (Array Mat4)) :
    Array.zipWith (· ++ ·) leaves (leaves.map fun _ => #[]) = leaves := by
  refine Array.ext (by simp) fun i h_i h_i' => ?_
  rw [Array.getElem_zipWith, Array.getElem_map, Array.append_empty]

/-- A scene collects nothing from empty sinks. -/
theorem collect_blank (scene : Scene) (collisions : Nat) :
    scene.collect scene.blank.parts collisions = { scene with collisionCount := collisions } := by
  have h_lines : scene.lines.map (· ++ (#[] : Array (Segment Float32))) = scene.lines := by
    cases scene.lines <;> simp
  unfold collect
  rw [show scene.blank.parts = ⟨#[], scene.leaves.map fun _ => #[], #[]⟩ from rfl]
  rw [Array.append_empty, zipWith_append_map_empty, h_lines]

/-- Adding a leaf to the end of its sink comes to the same before and after the sinks are
    put behind others. -/
theorem zipWith_append_modify (earlier leaves : Array (Array Mat4)) (variant : Nat)
    (frame : Mat4) :
    Array.zipWith (· ++ ·) earlier (leaves.modify variant (·.push frame))
      = (Array.zipWith (· ++ ·) earlier leaves).modify variant (·.push frame) := by
  refine Array.ext (by simp) fun i h_i h_i' => ?_
  rw [Array.getElem_zipWith, Array.getElem_modify, Array.getElem_modify, Array.getElem_zipWith]
  split
  next => rw [Array.push_append]
  next => rfl

/-- The scene with its parts behind those that another one holds. -/
def behind (scene held : Scene) : Scene := held.collect scene.parts scene.collisionCount

/-- The scene is like another and asks for lines, and its count of collisions is given. -/
structure Ready (scene held : Scene) (collisions : Nat) : Prop where
  alike : scene.Alike held
  lines : scene.lines.isSome = true
  counted : scene.collisionCount = collisions

theorem ready_blank (scene : Scene) : scene.blank.Ready scene 0 := ⟨scene.alike_blank, rfl, rfl⟩

theorem addBranch_behind (scene held : Scene) (frame : Mat4) :
    (scene.behind held).addBranch frame = (scene.addBranch frame).behind held := by
  unfold behind addBranch collect parts
  dsimp only
  rw [Array.push_append]

theorem addLeaf_behind (scene held : Scene) (variant : Nat) (frame : Mat4) :
    (scene.behind held).addLeaf variant frame = (scene.addLeaf variant frame).behind held := by
  unfold behind addLeaf collect parts
  dsimp only
  rw [zipWith_append_modify]

section Ready

variable {scene held : Scene} {collisions : Nat}

theorem Ready.addLine_behind (h : scene.Ready held collisions) (line : Segment Float32) :
    (scene.behind held).addLine line = (scene.addLine line).behind held := by
  obtain ⟨lines, h_lines⟩ := Option.isSome_iff_exists.mp h.lines
  unfold behind addLine collect parts
  simp only [h_lines, Option.map_map, Option.map_some, Option.getD_some, Function.comp_def,
    Array.push_append]

theorem Ready.size_leaves_behind (h : scene.Ready held collisions) :
    (scene.behind held).leaves.size = scene.leaves.size := by
  unfold behind collect parts
  rw [Array.size_zipWith, h.alike.leaves_size, Nat.min_self]

theorem Ready.addBranch (h : scene.Ready held collisions) (frame : Mat4) :
    (scene.addBranch frame).Ready held collisions :=
  ⟨⟨h.alike.influences, h.alike.sunDirection, h.alike.leaves_size⟩, h.lines, h.counted⟩

theorem Ready.addLeaf (h : scene.Ready held collisions) (variant : Nat) (frame : Mat4) :
    (scene.addLeaf variant frame).Ready held collisions :=
  ⟨⟨h.alike.influences, h.alike.sunDirection, Array.size_modify.trans h.alike.leaves_size⟩,
    h.lines, h.counted⟩

theorem Ready.addLine (h : scene.Ready held collisions) (line : Segment Float32) :
    (scene.addLine line).Ready held collisions :=
  ⟨⟨h.alike.influences, h.alike.sunDirection, h.alike.leaves_size⟩,
    Option.isSome_map.trans h.lines, h.counted⟩

theorem Ready.countCollision (h : scene.Ready held collisions) :
    { scene with collisionCount := scene.collisionCount + 1 }.Ready held (collisions + 1) :=
  ⟨⟨h.alike.influences, h.alike.sunDirection, h.alike.leaves_size⟩, h.lines,
    congrArg (· + 1) h.counted⟩

end Ready

end Scene

/-! ## Putting a state's parts behind others -/

namespace RunState

/-- The state with its parts behind those that a scene holds. -/
def addedTo (st : RunState) (held : Scene) : RunState :=
  { st with scene := st.scene.behind held }

/-- The scene of the state is like another and asks for lines, and it counts the collisions
    that the state counts. -/
def Ready (st : RunState) (held : Scene) : Prop := st.scene.Ready held st.summary.collisions

theorem move_addedTo (st : RunState) (held : Scene) (m : Mat4) :
    (st.addedTo held).move m = (st.move m).addedTo held := rfl

theorem restore_addedTo (st : RunState) (held : Scene) :
    (st.addedTo held).restore = st.restore.map (·.addedTo held) := by
  unfold restore addedTo
  cases st.stack with
  | nil => rfl
  | cons saved stack => rfl

theorem placeBranch_addedTo (st : RunState) (held : Scene) (frame : Mat4) :
    (st.addedTo held).placeBranch frame = (st.placeBranch frame).addedTo held := by
  unfold placeBranch addedTo
  rw [← Scene.addBranch_behind]

theorem recordLeaf_addedTo (st : RunState) (held : Scene) (box : Box Float32) (middle : Point) :
    (st.addedTo held).recordLeaf box middle = (st.recordLeaf box middle).addedTo held := rfl

theorem placeLeaf_addedTo (st : RunState) (held : Scene) (variant : Nat) (frame : Mat4) :
    (st.addedTo held).placeLeaf variant frame = (st.placeLeaf variant frame).addedTo held := by
  unfold placeLeaf addedTo
  rw [← Scene.addLeaf_behind]

theorem Ready.recordBranch_addedTo {st : RunState} {held : Scene} (h : st.Ready held)
    (axis : Segment Float32) (middle : Point) :
    (st.addedTo held).recordBranch axis middle = (st.recordBranch axis middle).addedTo held := by
  unfold recordBranch addedTo
  rw [← Scene.Ready.addLine_behind h]

end RunState

/-! ## Operations -/

section Operations

variable {st drawn st' : RunState} {held : Scene}

open RunState

theorem BranchStyle.Drawn.addedTo {style : BranchStyle} (h : st.Ready held)
    (h_drawn : style.Drawn st drawn) : style.Drawn (st.addedTo held) (drawn.addedTo held) := by
  have h_influences : held.influences.collisionCheck = st.scene.influences.collisionCheck :=
    congrArg Influences.collisionCheck h.alike.influences.symm
  cases h_drawn with
  | low h_low => exact .low h_low
  | collides h_high h_check id h_collision =>
      exact .collides h_high (h_influences.trans h_check) id h_collision
  | stored h_high h_check h_free =>
      rw [← move_addedTo, ← placeBranch_addedTo, ← h.recordBranch_addedTo]
      exact .stored h_high (h_influences.trans h_check) h_free
  | untested h_high h_check =>
      rw [← move_addedTo, ← placeBranch_addedTo]
      exact .untested h_high (h_influences.trans h_check)

theorem BranchStyle.Drawn.ready {style : BranchStyle} (h : st.Ready held)
    (h_drawn : style.Drawn st drawn) : drawn.Ready held := by
  cases h_drawn with
  | low => exact h
  | collides => exact Scene.Ready.countCollision h
  | stored => exact (Scene.Ready.addLine h _).addBranch _
  | untested => exact Scene.Ready.addBranch h _

theorem RunState.Ready.variantAt_addedTo (h : st.Ready held) (style : LeafStyle)
    (env : Surroundings) : style.variantAt env (st.addedTo held) = style.variantAt env st := by
  have h_size : (st.addedTo held).scene.leaves.size = st.scene.leaves.size :=
    h.size_leaves_behind
  unfold LeafStyle.variantAt
  rw [h_size]
  rfl

theorem LeafStyle.Drawn.addedTo {style : LeafStyle} {env : Surroundings} (h : st.Ready held)
    (h_drawn : style.Drawn env st drawn) :
    style.Drawn env (st.addedTo held) (drawn.addedTo held) := by
  have h_empty : (st.addedTo held).scene.leaves.isEmpty = st.scene.leaves.isEmpty := by
    rw [Array.isEmpty, Array.isEmpty, show (st.addedTo held).scene.leaves.size = _ from
      h.size_leaves_behind]
  cases h_drawn with
  | skipped h_skip =>
      rw [← h_empty] at h_skip
      exact .skipped h_skip
  | low h_fits h_low =>
      rw [← h_empty] at h_fits
      exact .low h_fits h_low
  | untested h_fits h_high h_spacing =>
      rw [← h_empty] at h_fits
      rw [← placeLeaf_addedTo, ← h.variantAt_addedTo]
      exact .untested h_fits h_high h_spacing
  | collides h_fits h_high spacing h_spacing id h_collision =>
      rw [← h_empty] at h_fits
      exact .collides h_fits h_high spacing h_spacing id h_collision
  | stored h_fits h_high spacing h_spacing h_free =>
      rw [← h_empty] at h_fits
      rw [← placeLeaf_addedTo, ← recordLeaf_addedTo, ← h.variantAt_addedTo]
      exact @Drawn.stored style env (st.addedTo held) h_fits h_high spacing h_spacing h_free

theorem LeafStyle.Drawn.ready {style : LeafStyle} {env : Surroundings} (h : st.Ready held)
    (h_drawn : style.Drawn env st drawn) : drawn.Ready held := by
  cases h_drawn with
  | skipped => exact h
  | low => exact h
  | untested => exact Scene.Ready.addLeaf h _ _
  | collides => exact Scene.Ready.countCollision h
  | stored => exact Scene.Ready.addLeaf h _ _

theorem Pull.bend_addedTo (h : st.Ready held) (pull : Pull) :
    pull.bend (st.addedTo held) = (pull.bend st).addedTo held := by
  have h_influences : (st.addedTo held).scene.influences = st.scene.influences :=
    h.alike.influences.symm
  have h_sun : (st.addedTo held).scene.sunDirection = st.scene.sunDirection :=
    h.alike.sunDirection.symm
  unfold bend
  rw [h_influences, h_sun]
  rfl

/-- An operation does the same behind the parts of another scene. -/
theorem RunState.Ready.apply_addedTo (h : st.Ready held) (operation : Operation)
    (env : Surroundings) :
    operation.apply env (st.addedTo held) = (operation.apply env st).map (·.addedTo held) := by
  cases operation with
  | branch style => exact congrArg Except.ok (BranchStyle.Drawn.addedTo h (style.drawn st)).draw_eq
  | leaf style => exact congrArg Except.ok (LeafStyle.Drawn.addedTo h (style.drawn env st)).draw_eq
  | rotate turn => rfl
  | tilt turn => rfl
  | push => rfl
  | pop => exact restore_addedTo st held
  | tick pull => exact congrArg Except.ok (pull.bend_addedTo h)

theorem RunState.Ready.of_applied (h : st.Ready held) {operation : Operation}
    {env : Surroundings} (h_applied : operation.Applied env st st') : st'.Ready held := by
  cases h_applied with
  | branch h_drawn => exact h_drawn.ready h
  | leaf h_drawn => exact h_drawn.ready h
  | rotate => exact h
  | tilt => exact h
  | push => exact h
  | pop => exact h
  | tick => exact h

end Operations

/-! ## Runs -/

namespace Bindings

variable {bindings : Bindings} {env : Surroundings} {st st' : RunState} {held : Scene}

theorem step_addedTo (h : st.Ready held) (k : Nat) (symbol : Char) :
    bindings.step env k symbol (st.addedTo held)
      = (bindings.step env k symbol st).map (·.addedTo held) := by
  unfold step
  cases bindings.operation? symbol with
  | none => rfl
  | some operation =>
      have h_index : RunState.Ready { st with index := k } held := h
      have h_apply := h_index.apply_addedTo operation env
      dsimp only
      rw [show { st.addedTo held with index := k } = RunState.addedTo { st with index := k } held
        from rfl, h_apply]
      cases operation.apply env { st with index := k } with
      | ok next => rfl
      | error e => rfl

theorem ready_of_step (h : st.Ready held) {k : Nat} {symbol : Char}
    (h_step : bindings.step env k symbol st = .ok st') : st'.Ready held := by
  rcases step_cases h_step with ⟨-, rfl⟩ | ⟨operation, next, -, h_applied, rfl⟩
  · exact h
  · have h_index : RunState.Ready { st with index := k } held := h
    have h_next : next.Ready held := h_index.of_applied h_applied
    exact h_next

/-- A run behind the parts of another scene is the run, with its parts put there, and it
    ends like it. -/
theorem runFrom_addedTo (h : st.Ready held) (k : Nat) (word : Word) :
    bindings.runFrom env k word (st.addedTo held)
      = ⟨(bindings.runFrom env k word st).state.addedTo held,
        (bindings.runFrom env k word st).failure⟩ ∧
    (bindings.runFrom env k word st).state.Ready held := by
  induction word generalizing k st with
  | nil => exact ⟨rfl, h⟩
  | cons symbol rest ih =>
      unfold runFrom
      rw [step_addedTo h]
      cases h_step : bindings.step env k symbol st with
      | ok next => exact ih (ready_of_step h h_step) (k + 1)
      | error e => exact ⟨rfl, h⟩

/-- A run in a scene is the run in the blank scene, with its parts added. -/
theorem run_addedTo (bindings : Bindings) (noise : Noise.Source) (word : Word) (scene : Scene) :
    bindings.run noise word { scene with collisionCount := 0 } .empty
      = ⟨(bindings.run noise word scene.blank .empty).state.addedTo scene,
        (bindings.run noise word scene.blank .empty).failure⟩ ∧
    (bindings.run noise word scene.blank .empty).state.Ready scene := by
  have h_start : RunState.Ready { scene := scene.blank, world := .empty } scene :=
    scene.ready_blank
  have h_scene : { scene with collisionCount := 0 } = scene.blank.behind scene :=
    (scene.collect_blank 0).symm
  rw [h_scene]
  exact runFrom_addedTo h_start 0 word

end Bindings

/-! ## Constructions -/

namespace Outcome

theorem result_addedTo (outcome : Outcome) (held : Scene) :
    result ⟨outcome.state.addedTo held, outcome.failure⟩ = outcome.result := by
  unfold result
  cases outcome.failure with
  | none => rfl
  | some e => rfl

theorem collisions_of_result {outcome : Outcome} {summary : RunSummary}
    (h : outcome.result = .ok summary) : summary.collisions = outcome.state.summary.collisions := by
  unfold result at h
  split at h
  next =>
    cases h
    rfl
  next => cases h

end Outcome

namespace Plant

/-- A construction is the run in the blank scene, with its parts added. -/
theorem construct_of_derive {plant : Plant} {passes : Nat} {word : Word}
    (h_word : plant.derive passes = .ok word) (scene : Scene) :
    plant.construct passes scene
      = (scene.collect (plant.bindings.run plant.noise word scene.blank .empty).state.scene.parts
          (plant.bindings.run plant.noise word scene.blank .empty).state.scene.collisionCount,
        (plant.bindings.run plant.noise word scene.blank .empty).result.map fun summary =>
          ⟨word, summary⟩) := by
  unfold construct
  rw [h_word]
  dsimp only
  rw [(plant.bindings.run_addedTo plant.noise word scene).1, Outcome.result_addedTo]
  rfl

/-- **Constructions do not see each other.**  In scenes with the same environment and as many
    sinks for leaves, a construction adds the same parts, behind all that the sinks hold, and
    ends with the same result and the same count of collisions, which is that of the run if it
    did not fail.  The grammar is one that can be built, so that the derivation does not fail
    and the count always starts at zero. -/
theorem construct_apart (plant : Plant) (h_built : plant.grammar.Built) (passes : Nat)
    (scene scene' : Scene) (h : scene.Alike scene') :
    ∃ (parts : Parts) (collisions : Nat) (result : Except PlantError Construction),
      plant.construct passes scene = (scene.collect parts collisions, result) ∧
      plant.construct passes scene' = (scene'.collect parts collisions, result) ∧
      parts.leaves.size = scene.leaves.size ∧
      ∀ c, result = .ok c → collisions = c.summary.collisions := by
  obtain ⟨word, h_word⟩ := h_built.wellFormed.exists_derive passes plant.noise
  have h_ready := (plant.bindings.run_addedTo plant.noise word scene).2
  have h_scene' := construct_of_derive h_word scene'
  rw [← h.blank_eq] at h_scene'
  refine ⟨_, _, _, construct_of_derive h_word scene, h_scene', h_ready.alike.leaves_size, ?_⟩
  intro c h_c
  cases h_result : (plant.bindings.run plant.noise word scene.blank .empty).result with
  | error e =>
      rw [h_result] at h_c
      cases h_c
  | ok summary =>
      rw [h_result] at h_c
      cases h_c
      exact h_ready.counted.trans (Outcome.collisions_of_result h_result).symm

/-- A plant with one branch, drawn and left again. -/
def budPlant : Plant :=
  ⟨.ofStart "[D]".toList, Bindings.bracketed.bind 'D' (.branch {}), .ofSeed 7⟩

/-- A scene that holds a branch, a leaf and an old count of collisions. -/
def usedScene : Scene :=
  { branches := #[.identity], leaves := #[#[.identity], #[]], collisionCount := 99 }

/-- An empty scene like `usedScene`, which asks for lines. -/
def freshScene : Scene := { leaves := #[#[], #[]], lines := some #[] }

/-- The branch of `budPlant` comes behind the one that `usedScene` holds, with the result that
    the fresh scene has. -/
theorem construct_apart_used :
    budPlant.grammar.Built ∧ usedScene.Alike freshScene ∧
      (budPlant.construct 1 freshScene).1.branches.size = 1 ∧
      (budPlant.construct 1 usedScene).1.branches
        = #[.identity] ++ (budPlant.construct 1 freshScene).1.branches ∧
      (budPlant.construct 1 usedScene).1.collisionCount = 0 ∧
      (budPlant.construct 1 usedScene).2 = (budPlant.construct 1 freshScene).2 := by
  have h_built : budPlant.grammar.Built := .ofStart _
  have h_alike : usedScene.Alike freshScene := ⟨rfl, rfl, rfl⟩
  have h_one : (budPlant.construct 1 freshScene).1.branches.size = 1 := by decide +kernel
  have h_count : (budPlant.construct 1 freshScene).1.collisionCount = 0 := by decide +kernel
  obtain ⟨parts, collisions, result, h_used, h_fresh, -⟩ :=
    construct_apart budPlant h_built 1 usedScene freshScene h_alike
  refine ⟨h_built, h_alike, h_one, ?_, ?_, ?_⟩
  · rw [h_used, h_fresh]
    show #[.identity] ++ parts.branches = #[.identity] ++ (#[] ++ parts.branches)
    rw [Array.empty_append]
  · rw [h_fresh] at h_count
    rw [h_used]
    exact h_count
  · rw [h_used, h_fresh]

end Plant

end Verdure
