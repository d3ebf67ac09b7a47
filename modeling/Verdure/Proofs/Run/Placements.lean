/-
  Verdure.Proofs.Run.Placements

  What a run places, and where in the word it comes from.

  A branch is written to three places: its frame to the scene, its axis to the lines, and
  its axis again, with three anchors, to the collision world.  All three are written from
  one list of sites, the symbols at which the run places a branch (`Lists`), so the n-th
  entry of each is that of the n-th site.  Leaves that keep a distance are stored likewise,
  with one anchor each.
-/
import Verdure.Proofs.Collision.Growth
import Verdure.Proofs.Run.Accounts

namespace Verdure

/-! ## Sites -/

/-- A symbol that draws in a style, and the state in which a run gets to it. -/
structure Site (Style : Type) where
  position : Nat
  style : Style
  state : RunState

namespace Site

/-- The frame of the branch at a site. -/
def frame (site : Site BranchStyle) : Mat4 := site.style.frameAt site.state

/-- The axis of the branch at a site. -/
def axis (site : Site BranchStyle) : Segment Float32 := site.style.axisAt site.state

/-- The middle of the branch at a site. -/
def middle (site : Site BranchStyle) : Point := site.style.middleAt site.state

/-- The record of the branch at a site, and its anchors: the middle of the branch and both
    ends of the record. -/
def record (site : Site BranchStyle) : Bounds Float32 × List Point :=
  (.segment site.axis, [site.middle, site.axis.start, site.axis.stop])

/-- The record of the leaf at a site and its one anchor, if the leaf keeps a distance. -/
def record? (site : Site LeafStyle) : Option (Bounds Float32 × List Point) :=
  site.style.minSpacing.map fun spacing =>
    (.box (site.style.boxAt site.state spacing), [site.style.placeAt site.state])

end Site

/-- All sites before a position that have a property, in the order of their positions. -/
structure Lists {Style : Type} (P : Site Style → Prop) (k : Nat) (sites : List (Site Style)) :
    Prop where
  sorted : sites.Pairwise (·.position < ·.position)
  mem_iff : ∀ site, site ∈ sites ↔ site.position < k ∧ P site

namespace Lists

variable {Style : Type} {P : Site Style → Prop} {k : Nat} {sites : List (Site Style)}

theorem nil (P : Site Style → Prop) : Lists P 0 [] :=
  ⟨List.Pairwise.nil, fun site => by simp⟩

/-- Past a position without a site. -/
theorem skip (h : Lists P k sites) (h_none : ∀ site, P site → site.position ≠ k) :
    Lists P (k + 1) sites := by
  refine ⟨h.sorted, fun site => ?_⟩
  rw [h.mem_iff]
  refine and_congr_left fun h_site => ?_
  have := h_none site h_site
  omega

/-- Past a position with one site. -/
theorem snoc (h : Lists P k sites) (site : Site Style) (h_site : P site)
    (h_position : site.position = k)
    (h_unique : ∀ other, P other → other.position = k → other = site) :
    Lists P (k + 1) (sites ++ [site]) := by
  refine ⟨List.pairwise_append.mpr ⟨h.sorted, List.pairwise_singleton _ _, ?_⟩, fun other => ?_⟩
  · intro earlier h_earlier last h_last
    rw [List.mem_singleton.mp h_last, h_position]
    exact ((h.mem_iff earlier).mp h_earlier).1
  · rw [List.mem_append, List.mem_singleton, h.mem_iff]
    constructor
    · rintro (⟨h_lt, h_other⟩ | rfl)
      · exact ⟨Nat.lt_succ_of_lt h_lt, h_other⟩
      · exact ⟨by omega, h_site⟩
    · rintro ⟨h_lt, h_other⟩
      rcases Nat.eq_or_lt_of_le (Nat.le_of_lt_succ h_lt) with h_eq | h_before
      · exact .inr (h_unique other h_other h_eq)
      · exact .inl ⟨h_before, h_other⟩

end Lists

namespace Bindings

/-- A run gets to the site, and the symbol there draws in the style of the site and adds a
    part to the scene. -/
def PlacesAt {Style : Type} (draws : Style → Operation) (parts : Scene → Nat)
    (bindings : Bindings) (noise : Noise.Source) (word : Word) (scene : Scene)
    (world : Collision.World) (site : Site Style) : Prop :=
  ∃ symbol st', word[site.position]? = some symbol ∧
    bindings.operation? symbol = some (draws site.style) ∧
    bindings.RunsTo noise word scene world site.position site.state ∧
    bindings.RunsTo noise word scene world (site.position + 1) st' ∧
    parts st'.scene = parts site.state.scene + 1

/-- A run places a branch at the site. -/
def PlacesBranch (bindings : Bindings) (noise : Noise.Source) (word : Word) (scene : Scene)
    (world : Collision.World) : Site BranchStyle → Prop :=
  bindings.PlacesAt .branch (·.branches.size) noise word scene world

/-- A run places a leaf at the site. -/
def PlacesLeaf (bindings : Bindings) (noise : Noise.Source) (word : Word) (scene : Scene)
    (world : Collision.World) : Site LeafStyle → Prop :=
  bindings.PlacesAt .leaf (·.leafCount) noise word scene world

/-! ## One symbol -/

section Symbol

variable {bindings : Bindings} {env : Surroundings} {k : Nat} {symbol : Char} {st : RunState}
  {ending : Option Ending} {scene : Scene} {world : Collision.World}

/-- A symbol leaves the branches, their lines and their records alone, or it draws a branch
    and adds to them. -/
theorem Yields.branch_cases (h : bindings.Yields env k symbol st ending scene world) :
    (scene.branches = st.scene.branches ∧ scene.lines = st.scene.lines ∧
      world.branches = st.world.branches) ∨
    ∃ style, bindings.operation? symbol = some (.branch style) ∧
      scene.branches = st.scene.branches.push (style.frameAt st) ∧
      ((st.scene.influences.collisionCheck = false ∧ scene.lines = st.scene.lines ∧
          world.branches = st.world.branches) ∨
        (st.scene.influences.collisionCheck = true ∧
          scene.lines = st.scene.lines.map (·.push (style.axisAt st)) ∧
          world.branches = (st.world.branches.add (.segment (style.axisAt st))
            [style.middleAt st, (style.axisAt st).start, (style.axisAt st).stop]).1)) := by
  cases h with
  | quiet => exact .inl ⟨rfl, rfl, rfl⟩
  | low => exact .inl ⟨rfl, rfl, rfl⟩
  | collides => exact .inl ⟨rfl, rfl, rfl⟩
  | branch style h_operation h_check =>
      exact .inr ⟨style, h_operation, rfl, .inl ⟨h_check, rfl, rfl⟩⟩
  | storedBranch style h_operation h_check =>
      exact .inr ⟨style, h_operation, rfl, .inr ⟨h_check, rfl, rfl⟩⟩
  | leaf => exact .inl ⟨rfl, rfl, rfl⟩
  | storedLeaf => exact .inl ⟨rfl, rfl, rfl⟩

/-- A symbol leaves the number of leaves and the records of leaves alone, or it draws a leaf
    and stores it if the leaf keeps a distance. -/
theorem Yields.leaf_cases (h : bindings.Yields env k symbol st ending scene world) :
    (scene.leafCount = st.scene.leafCount ∧ world.leaves = st.world.leaves) ∨
    ∃ style, bindings.operation? symbol = some (.leaf style) ∧
      scene.leafCount = st.scene.leafCount + 1 ∧
      ((style.minSpacing = none ∧ world.leaves = st.world.leaves) ∨
        ∃ spacing, style.minSpacing = some spacing ∧
          world.leaves = (st.world.leaves.add (.box (style.boxAt st spacing))
            [style.placeAt st]).1) := by
  cases h with
  | quiet => exact .inl ⟨rfl, rfl⟩
  | low => exact .inl ⟨rfl, rfl⟩
  | collides => exact .inl ⟨rfl, rfl⟩
  | branch => exact .inl ⟨rfl, rfl⟩
  | storedBranch => exact .inl ⟨rfl, rfl⟩
  | leaf style h_operation h_attempts h_spacing =>
      exact .inr ⟨style, h_operation, leafCount_addLeaf_variantAt h_operation h_attempts env k _,
        .inl ⟨h_spacing, rfl⟩⟩
  | storedLeaf style h_operation h_attempts spacing h_spacing =>
      exact .inr ⟨style, h_operation, leafCount_addLeaf_variantAt h_operation h_attempts env k _,
        .inr ⟨spacing, h_spacing, rfl⟩⟩

end Symbol

/-! ## Along a run -/

section Run

variable {bindings : Bindings} {noise : Noise.Source} {word : Word} {scene : Scene}
  {world : Collision.World} {k : Nat} {st st' : RunState} {symbol : Char}

section Sites

variable {Style : Type} {draws : Style → Operation} {parts : Scene → Nat}
  {sites : List (Site Style)}

/-- Nothing is placed where the number of parts stays. -/
theorem lists_skip (h : Lists (bindings.PlacesAt draws parts noise word scene world) k sites)
    (h_st : bindings.RunsTo noise word scene world k st)
    (h_st' : bindings.RunsTo noise word scene world (k + 1) st')
    (h_parts : parts st'.scene = parts st.scene) :
    Lists (bindings.PlacesAt draws parts noise word scene world) (k + 1) sites := by
  refine h.skip ?_
  rintro site ⟨_, after, -, -, h_before, h_after, h_more⟩ rfl
  rw [Reaches.unique h_after h_st', Reaches.unique h_before h_st] at h_more
  omega

/-- One part is placed where the number of parts goes up. -/
theorem lists_snoc (h_draws : Function.Injective draws)
    (h : Lists (bindings.PlacesAt draws parts noise word scene world) k sites)
    (h_st : bindings.RunsTo noise word scene world k st)
    (h_st' : bindings.RunsTo noise word scene world (k + 1) st')
    (h_symbol : word[k]? = some symbol) {style : Style}
    (h_operation : bindings.operation? symbol = some (draws style))
    (h_parts : parts st'.scene = parts st.scene + 1) :
    Lists (bindings.PlacesAt draws parts noise word scene world) (k + 1)
      (sites ++ [⟨k, style, st⟩]) := by
  refine h.snoc ⟨k, style, st⟩ ⟨symbol, st', h_symbol, h_operation, h_st, h_st', h_parts⟩
    rfl ?_
  rintro ⟨position, other, before⟩ ⟨_, _, h_symbol', h_operation', h_before, -, -⟩ rfl
  obtain rfl : before = st := Reaches.unique h_before h_st
  rw [h_symbol] at h_symbol'
  cases h_symbol'
  rw [h_operation] at h_operation'
  obtain rfl := h_draws (Option.some.inj h_operation')
  rfl

end Sites

theorem append_map_concat {α β : Type} (f : α → β) (held : Array β) (items : List α) (item : α) :
    held ++ ((items ++ [item]).map f).toArray = (held ++ (items.map f).toArray).push (f item) := by
  simp

theorem map_append_map_concat {α β : Type} (f : α → β) (held : Option (Array β))
    (items : List α) (item : α) :
    held.map (· ++ ((items ++ [item]).map f).toArray)
      = (held.map (· ++ (items.map f).toArray)).map (·.push (f item)) := by
  cases held with
  | none => rfl
  | some lines => exact congrArg some (append_map_concat f lines items item)

/-- The branches of a run, with their lines and records, are those of the sites at which it
    places a branch. -/
theorem RunsTo.branchSites (h : bindings.RunsTo noise word scene world k st) :
    ∃ sites, Lists (bindings.PlacesBranch noise word scene world) k sites ∧
      st.scene.branches = scene.branches ++ (sites.map Site.frame).toArray ∧
      (scene.influences.collisionCheck = true →
        st.scene.lines = scene.lines.map (· ++ (sites.map Site.axis).toArray) ∧
        world.branches.Grown (sites.map Site.record) st.world.branches) ∧
      (scene.influences.collisionCheck = false →
        st.scene.lines = scene.lines ∧ st.world.branches = world.branches) := by
  induction h with
  | start =>
      refine ⟨[], Lists.nil _, ?_, fun _ => ⟨?_, .refl _⟩, fun _ => ⟨rfl, rfl⟩⟩
      · rw [List.map_nil, Array.append_empty]
      · cases h_lines : scene.lines <;> simp
  | @step k symbol st st' h_st h_symbol h_step ih =>
      obtain ⟨sites, h_sites, h_frames, h_on, h_off⟩ := ih
      have h_st' := Reaches.step h_st h_symbol h_step
      have h_check : st.scene.influences.collisionCheck = scene.influences.collisionCheck :=
        congrArg Influences.collisionCheck (RunsTo.alike h_st).influences.symm
      obtain ⟨ending, h_yields, -⟩ := step_yields h_step
      rcases h_yields.branch_cases with ⟨h_branches, h_lines, h_world⟩ |
          ⟨style, h_operation, h_branches, h_added⟩
      · -- The symbol places no branch.
        rw [h_branches, h_lines, h_world]
        exact ⟨sites, lists_skip h_sites h_st h_st' (congrArg Array.size h_branches), h_frames,
          h_on, h_off⟩
      · have h_size : st'.scene.branches.size = st.scene.branches.size + 1 := by
          rw [h_branches, Array.size_push]
        refine ⟨_, lists_snoc (fun _ _ h_eq => Operation.branch.inj h_eq) h_sites h_st h_st'
          h_symbol h_operation h_size, ?_, ?_⟩
        · rw [h_branches, append_map_concat, ← h_frames]
          rfl
        · -- Lines and records go on with the branch if branches are tested.
          rw [h_check] at h_added
          rcases h_added with ⟨h_untested, h_lines, h_world⟩ | ⟨h_tested, h_lines, h_world⟩
          · rw [h_lines, h_world, h_untested]
            exact ⟨nofun, fun _ => h_off h_untested⟩
          · obtain ⟨h_before, h_grown⟩ := h_on h_tested
            have h_records :=
              h_grown.add (Site.record ⟨k, style, st⟩).1 (Site.record ⟨k, style, st⟩).2
            rw [h_lines, h_world, h_tested, h_before, map_append_map_concat, List.map_append]
            exact ⟨fun _ => ⟨rfl, h_records⟩, nofun⟩

/-- The records of leaves in a run are those of the sites at which it places a leaf that
    keeps a distance. -/
theorem RunsTo.leafSites (h : bindings.RunsTo noise word scene world k st) :
    ∃ sites, Lists (bindings.PlacesLeaf noise word scene world) k sites ∧
      world.leaves.Grown (sites.filterMap Site.record?) st.world.leaves := by
  induction h with
  | start => exact ⟨[], Lists.nil _, .refl _⟩
  | @step k symbol st st' h_st h_symbol h_step ih =>
      obtain ⟨sites, h_sites, h_grown⟩ := ih
      have h_st' := Reaches.step h_st h_symbol h_step
      obtain ⟨ending, h_yields, -⟩ := step_yields h_step
      rcases h_yields.leaf_cases with ⟨h_leaves, h_world⟩ |
          ⟨style, h_operation, h_leaves, h_added⟩
      · -- The symbol places no leaf.
        rw [h_world]
        exact ⟨sites, lists_skip h_sites h_st h_st' h_leaves, h_grown⟩
      · refine ⟨_, lists_snoc (fun _ _ h_eq => Operation.leaf.inj h_eq) h_sites h_st h_st'
          h_symbol h_operation h_leaves, ?_⟩
        rw [List.filterMap_append]
        -- Every leaf placed is a site, but only one that keeps a distance has a record.
        rcases h_added with ⟨h_spacing, h_world⟩ | ⟨spacing, h_spacing, h_world⟩
        · have h_none : Site.record? ⟨k, style, st⟩ = none := by
            rw [Site.record?, h_spacing]
            rfl
          rw [h_world, List.filterMap_cons_none h_none, List.filterMap_nil, List.append_nil]
          exact h_grown
        · have h_some : Site.record? ⟨k, style, st⟩
              = some (.box (style.boxAt st spacing), [style.placeAt st]) := by
            rw [Site.record?, h_spacing]
            rfl
          rw [h_world, List.filterMap_cons_some h_some, List.filterMap_nil]
          exact h_grown.add _ _

end Run

/-- **Sinks and records stay aligned.**  At every point of a run, in whatever world and scene
    it started, its branches are those of the symbols that placed one, in order.  If branches
    are tested, so are its lines, and so are the records added to the world: the n-th record
    is the axis of the n-th branch, anchored at the middle of the branch and at both ends.
    If branches are not tested, their index and the lines are as they were.  The leaf index
    gains one box with one anchor for each leaf placed that keeps a distance.  What the
    indices held before is kept.  If no anchor was astray before none is after, and the new
    records have their own anchors and no others.  Each symbol adds one record and one level
    at most. -/
theorem runsTo_aligned (bindings : Bindings) (noise : Noise.Source) (word : Word) (scene : Scene)
    (world : Collision.World) (k : Nat) (st : RunState)
    (h : bindings.RunsTo noise word scene world k st) :
    ∃ (branches : List (Site BranchStyle)) (leaves : List (Site LeafStyle)),
      Lists (bindings.PlacesBranch noise word scene world) k branches ∧
      Lists (bindings.PlacesLeaf noise word scene world) k leaves ∧
      st.scene.branches = scene.branches ++ (branches.map Site.frame).toArray ∧
      (scene.influences.collisionCheck = true →
        st.scene.lines = scene.lines.map (· ++ (branches.map Site.axis).toArray) ∧
        world.branches.Grown (branches.map Site.record) st.world.branches ∧
        (world.branches.Sound → st.world.branches.Sound ∧ ∀ n site, branches[n]? = some site →
          (st.world.branches.anchorsAt ⟨world.branches.category, world.branches.size + n⟩).Perm
            [site.middle, site.axis.start, site.axis.stop])) ∧
      (scene.influences.collisionCheck = false →
        st.scene.lines = scene.lines ∧ st.world.branches = world.branches) ∧
      world.leaves.Grown (leaves.filterMap Site.record?) st.world.leaves ∧
      (world.leaves.Sound → st.world.leaves.Sound ∧
        ∀ n box point, (leaves.filterMap Site.record?)[n]? = some (box, [point]) →
          (st.world.leaves.anchorsAt ⟨world.leaves.category, world.leaves.size + n⟩).Perm
            [point]) ∧
      (st.world.branches.size ≤ world.branches.size + k ∧
        st.world.leaves.size ≤ world.leaves.size + k ∧ st.depth ≤ 1 + k) := by
  obtain ⟨branches, h_branches, h_frames, h_on, h_off⟩ := h.branchSites
  obtain ⟨leaves, h_leaves, h_boxes⟩ := h.leafSites
  refine ⟨branches, leaves, h_branches, h_leaves, h_frames, fun h_check => ?_, h_off, h_boxes,
    fun h_sound => ⟨h_boxes.sound h_sound, fun n box point => h_boxes.anchorsAt_perm h_sound⟩,
    h.size_le.1, h.size_le.2, h.depth_le⟩
  obtain ⟨h_lines, h_grown⟩ := h_on h_check
  refine ⟨h_lines, h_grown, fun h_sound => ⟨h_grown.sound h_sound, fun n site h_site => ?_⟩⟩
  have h_record : (branches.map Site.record)[n]?
      = some (.segment site.axis, [site.middle, site.axis.start, site.axis.stop]) := by
    rw [List.getElem?_map, h_site]
    rfl
  exact h_grown.anchorsAt_perm h_sound h_record

/-- The one branch of `DX`, in a scene that asks for lines, gives the one line and the one
    record that there are after it, which is anchored at three points. -/
theorem runsTo_aligned_single :
    ∃ st, leafyBindings.RunsTo (.ofSeed 7) "DX".toList { lines := some #[] } .empty 1 st ∧
      ∃ site, leafyBindings.PlacesBranch (.ofSeed 7) "DX".toList { lines := some #[] } .empty site ∧
        st.scene.branches = #[site.frame] ∧ st.scene.lines = some #[site.axis] ∧
        st.world.branches.records = #[.segment site.axis] ∧
        (st.world.branches.anchorsAt ⟨.branch, 0⟩).Perm
          [site.middle, site.axis.start, site.axis.stop] := by
  have h_operation : leafyBindings.operation? 'D' = some (.branch {}) := by decide
  have h_first : leafyBindings.RunsTo (.ofSeed 7) "DX".toList { lines := some #[] } .empty 1
      (BranchStyle.draw {} { scene := { lines := some #[] }, world := .empty }).countSymbol :=
    .step .start rfl (step_branch h_operation _ _ _)
  have h_size : (BranchStyle.draw {} { scene := { lines := some #[] }, world := .empty
      }).countSymbol.scene.branches.size = 1 := by decide +kernel
  obtain ⟨branches, -, h_branches, -, h_frames, h_on, -⟩ := runsTo_aligned leafyBindings (.ofSeed 7)
    "DX".toList { lines := some #[] } .empty 1 _ h_first
  obtain ⟨h_lines, h_grown, h_anchors⟩ := h_on rfl
  obtain ⟨-, h_anchors⟩ := h_anchors (Collision.Index.sound_empty .branch)
  -- One branch was placed, so there is one site.
  have h_length : branches.length = 1 := by
    rw [h_frames, Array.size_append] at h_size
    simpa using h_size
  obtain ⟨site, rfl⟩ := List.length_eq_one_iff.mp h_length
  have h_site := ((h_branches.mem_iff site).mp (List.mem_singleton_self site)).2
  exact ⟨_, h_first, site, h_site, h_frames, h_lines, h_grown.records, h_anchors 0 site rfl⟩

end Bindings

end Verdure
