/-
  Verdure.Proofs.Serial.RoundTrip

  Definitions survive being written.

  Where the written form was edited, what was left out is read as its default, and everything
  else as it was written.
-/
import Verdure.Proofs.Serial.Records

namespace Verdure

/-! ## Parameters -/

namespace BranchStyle

/-- The numbers among the parameters. -/
def floats (s : BranchStyle) : List Float32 :=
  [s.depthFalloff, s.baseTravel, s.baseScale, s.shallowTravel, s.shallowScale, s.minHeight,
    s.segmentInset, s.segmentReach, s.clearance]

/-- The counts have no more bits than are written for them. -/
def InWidth (s : BranchStyle) : Prop :=
  s.shallowDepth < Json.bound32 ∧ s.neighbors < Json.bound64

/-- The style with defaults for the parameters that are left out. -/
def without (o : Omitted) (s : BranchStyle) : BranchStyle :=
  let d : BranchStyle := {}
  { depthFalloff := o.value "depth_falloff" d.depthFalloff s.depthFalloff
    baseTravel := o.value "base_travel" d.baseTravel s.baseTravel
    baseScale := o.value "base_scale" d.baseScale s.baseScale
    shallowDepth := o.value "shallow_depth" d.shallowDepth s.shallowDepth
    shallowTravel := o.value "shallow_travel" d.shallowTravel s.shallowTravel
    shallowScale := o.value "shallow_scale" d.shallowScale s.shallowScale
    minHeight := o.value "min_height" d.minHeight s.minHeight
    segmentInset := o.value "segment_inset" d.segmentInset s.segmentInset
    segmentReach := o.value "segment_reach" d.segmentReach s.segmentReach
    neighbors := o.value "neighbors" d.neighbors s.neighbors
    clearance := o.value "clearance" d.clearance s.clearance }

theorem decode_of_edited {num : Float32 → Json} (h_num : Json.ReadsBack num) {s : BranchStyle}
    (h_finite : ∀ x ∈ s.floats, x.isFinite = true) (h_width : s.InWidth) {o : Omitted}
    {json' : Json} (h : Json.RecordEdited o (fun _ => Eq) (s.encode num) json') :
    decode json' = some (s.without o) := by
  cases h with
  | obj edited =>
      have h_read : ∀ x ∈ s.floats, Json.float32? (num x) = some x :=
        fun x h_x => h_num x (h_finite x h_x)
      simp only [floats, List.forall_mem_cons] at h_read
      obtain ⟨h_falloff, h_travel, h_scale, h_shallow_travel, h_shallow_scale, h_height, h_inset,
        h_reach, h_clearance, -⟩ := h_read
      unfold decode
      rw [Json.fields?, Option.bind_eq_bind, Option.bind_some]
      rw [edited.unchanged "depth_falloff" rfl h_falloff,
        edited.unchanged "base_travel" rfl h_travel, edited.unchanged "base_scale" rfl h_scale,
        edited.unchanged "shallow_depth" rfl (Json.nat?_ofNat h_width.1),
        edited.unchanged "shallow_travel" rfl h_shallow_travel,
        edited.unchanged "shallow_scale" rfl h_shallow_scale,
        edited.unchanged "min_height" rfl h_height, edited.unchanged "segment_inset" rfl h_inset,
        edited.unchanged "segment_reach" rfl h_reach,
        edited.unchanged "neighbors" rfl (Json.nat?_ofNat h_width.2),
        edited.unchanged "clearance" rfl h_clearance]
      rfl

end BranchStyle

namespace LeafStyle

/-- The numbers among the parameters. -/
def floats (s : LeafStyle) : List Float32 :=
  [s.angle, s.scale, s.minHeight, s.variantFrequency] ++ s.minSpacing.toList

/-- The counts have no more bits than are written for them. -/
def InWidth (s : LeafStyle) : Prop :=
  s.minDepth < Json.bound32 ∧ s.neighbors < Json.bound64

/-- The style with defaults for the parameters that are left out. -/
def without (o : Omitted) (s : LeafStyle) : LeafStyle :=
  let d : LeafStyle := {}
  { minDepth := o.value "min_depth" d.minDepth s.minDepth
    angle := o.value "angle" d.angle s.angle
    scale := o.value "scale" d.scale s.scale
    minHeight := o.value "min_height" d.minHeight s.minHeight
    variantFrequency := o.value "variant_frequency" d.variantFrequency s.variantFrequency
    minSpacing := o.value "min_spacing" d.minSpacing s.minSpacing
    neighbors := o.value "neighbors" d.neighbors s.neighbors }

theorem decode_of_edited {num : Float32 → Json} (h_num : Json.ReadsBack num) {s : LeafStyle}
    (h_finite : ∀ x ∈ s.floats, x.isFinite = true) (h_width : s.InWidth) {o : Omitted}
    {json' : Json} (h : Json.RecordEdited o (fun _ => Eq) (s.encode num) json') :
    decode json' = some (s.without o) := by
  cases h with
  | obj edited =>
      rw [floats, List.forall_mem_append] at h_finite
      obtain ⟨h_numbers, h_some⟩ := h_finite
      have h_spacing := h_num.nullable? fun x h_x => h_some x (Option.mem_toList.mpr h_x)
      have h_read : ∀ x ∈ [s.angle, s.scale, s.minHeight, s.variantFrequency],
          Json.float32? (num x) = some x := fun x h_x => h_num x (h_numbers x h_x)
      simp only [List.forall_mem_cons] at h_read
      obtain ⟨h_angle, h_scale, h_height, h_frequency, -⟩ := h_read
      unfold decode
      rw [Json.fields?, Option.bind_eq_bind, Option.bind_some]
      rw [edited.unchanged "min_depth" rfl (Json.nat?_ofNat h_width.1),
        edited.unchanged "angle" rfl h_angle, edited.unchanged "scale" rfl h_scale,
        edited.unchanged "min_height" rfl h_height,
        edited.unchanged "variant_frequency" rfl h_frequency,
        edited.unchanged "min_spacing" rfl h_spacing,
        edited.unchanged "neighbors" rfl (Json.nat?_ofNat h_width.2)]
      rfl

end LeafStyle

namespace Turn

/-- The numbers among the parameters. -/
def floats (t : Turn) : List Float32 := [t.angle, t.jitter]

/-- The turn with the parameters of `d` for those that are left out. -/
def without (o : Omitted) (t d : Turn) : Turn :=
  { angle := o.value "angle" d.angle t.angle
    jitter := o.value "jitter" d.jitter t.jitter }

theorem decode_of_edited {num : Float32 → Json} (h_num : Json.ReadsBack num) (d : Turn) {t : Turn}
    (h_finite : ∀ x ∈ t.floats, x.isFinite = true) {o : Omitted} {json' : Json}
    (h : Json.RecordEdited o (fun _ => Eq) (t.encode num) json') :
    decode d json' = some (t.without o d) := by
  cases h with
  | obj edited =>
      have h_angle := h_num t.angle (h_finite _ (by simp [floats]))
      have h_jitter := h_num t.jitter (h_finite _ (by simp [floats]))
      unfold decode
      rw [Json.fields?, Option.bind_eq_bind, Option.bind_some]
      rw [edited.unchanged "angle" rfl h_angle, edited.unchanged "jitter" rfl h_jitter]
      rfl

end Turn

namespace Pull

/-- The numbers among the parameters. -/
def floats (p : Pull) : List Float32 := [p.sunAngle, p.gravityAngle]

/-- The pull with defaults for the parameters that are left out. -/
def without (o : Omitted) (p : Pull) : Pull :=
  let d : Pull := {}
  { sunAngle := o.value "sun_angle" d.sunAngle p.sunAngle
    gravityAngle := o.value "gravity_angle" d.gravityAngle p.gravityAngle }

theorem decode_of_edited {num : Float32 → Json} (h_num : Json.ReadsBack num) {p : Pull}
    (h_finite : ∀ x ∈ p.floats, x.isFinite = true) {o : Omitted} {json' : Json}
    (h : Json.RecordEdited o (fun _ => Eq) (p.encode num) json') :
    decode json' = some (p.without o) := by
  cases h with
  | obj edited =>
      have h_sun := h_num p.sunAngle (h_finite _ (by simp [floats]))
      have h_gravity := h_num p.gravityAngle (h_finite _ (by simp [floats]))
      unfold decode
      rw [Json.fields?, Option.bind_eq_bind, Option.bind_some]
      rw [edited.unchanged "sun_angle" rfl h_sun, edited.unchanged "gravity_angle" rfl h_gravity]
      rfl

end Pull

/-! ## Operations -/

namespace Operation

/-- The numbers among the parameters. -/
def floats : Operation → List Float32
  | .branch style => style.floats
  | .leaf style => style.floats
  | .rotate turn => turn.floats
  | .tilt turn => turn.floats
  | .push => []
  | .pop => []
  | .tick pull => pull.floats

/-- The counts have no more bits than are written for them. -/
def InWidth : Operation → Prop
  | .branch style => style.InWidth
  | .leaf style => style.InWidth
  | _ => True

/-- The operation with defaults for the parameters that are left out.  The two turns have
    different ones. -/
def without (o : Omitted) : Operation → Operation
  | .branch style => .branch (style.without o)
  | .leaf style => .leaf (style.without o)
  | .rotate turn => .rotate (turn.without o defaultRotate)
  | .tilt turn => .tilt (turn.without o defaultTilt)
  | .push => .push
  | .pop => .pop
  | .tick pull => .tick (pull.without o)

/-- An edit of a written operation: of the record of its parameters, if it has one. -/
inductive Edited (o : Omitted) : Json → Json → Prop
  | name (tag : String) : Edited o (.str tag) (.str tag)
  | record (tag : String) {content content' : Json}
      (edited : Json.RecordEdited o (fun _ => Eq) content content') :
      Edited o (.obj [(tag, content)]) (.obj [(tag, content')])

theorem edited_refl (num : Float32 → Json) (op : Operation) :
    Edited .none (op.encode num) (op.encode num) := by
  cases op with
  | push => exact .name _
  | pop => exact .name _
  | branch | leaf | rotate | tilt | tick =>
      exact .record _ (.obj (Json.FieldsEdited.refl fun _ _ => rfl))

theorem exists_edited (num : Float32 → Json) (o : Omitted) (op : Operation) :
    ∃ json', Edited o (op.encode num) json' := by
  have h_record (fields : List (String × Json)) :
      ∃ json', Json.RecordEdited o (fun _ => Eq) (.obj fields) json' :=
    Json.exists_recordEdited o fun f _ => ⟨f.2, rfl⟩
  cases op with
  | push => exact ⟨_, .name _⟩
  | pop => exact ⟨_, .name _⟩
  | branch | leaf | rotate | tilt | tick =>
      obtain ⟨_, h_edited⟩ := h_record _
      exact ⟨_, .record _ h_edited⟩

theorem without_none (op : Operation) : op.without .none = op := by
  cases op <;> rfl

theorem decode_of_edited {num : Float32 → Json} (h_num : Json.ReadsBack num) {op : Operation}
    (h_finite : ∀ x ∈ op.floats, x.isFinite = true) (h_width : op.InWidth) {o : Omitted}
    {json' : Json} (h : Edited o (op.encode num) json') : decode json' = some (op.without o) := by
  -- The tag is not edited, and it selects the reader, for a turn together with the defaults.
  cases op with
  | branch style =>
      cases h with
      | record _ edited =>
          show (BranchStyle.decode _).map branch = _
          rw [BranchStyle.decode_of_edited h_num h_finite h_width edited]
          rfl
  | leaf style =>
      cases h with
      | record _ edited =>
          show (LeafStyle.decode _).map leaf = _
          rw [LeafStyle.decode_of_edited h_num h_finite h_width edited]
          rfl
  | rotate turn =>
      cases h with
      | record _ edited =>
          show (Turn.decode defaultRotate _).map rotate = _
          rw [Turn.decode_of_edited h_num _ h_finite edited]
          rfl
  | tilt turn =>
      cases h with
      | record _ edited =>
          show (Turn.decode defaultTilt _).map tilt = _
          rw [Turn.decode_of_edited h_num _ h_finite edited]
          rfl
  | push => cases h with | name => rfl
  | pop => cases h with | name => rfl
  | tick pull =>
      cases h with
      | record _ edited =>
          show (Pull.decode _).map tick = _
          rw [Pull.decode_of_edited h_num h_finite edited]
          rfl

end Operation

/-! ## Productions -/

namespace Production

/-- The production, with weight 1 if the weight is left out. -/
def without (out : Bool) (p : Production Float32) : Production Float32 :=
  { p with weight := (Omitted.only "weight" out).value "weight" 1.0 p.weight }

theorem decode_of_edited {num : Float32 → Json} (h_num : Json.ReadsBack num)
    {p : Production Float32} (h_finite : p.weight.isFinite = true) {out : Bool} {json' : Json}
    (h : Json.RecordEdited (.only "weight" out) (fun _ => Eq) (p.encode num) json') :
    decode json' = some (p.without out) := by
  cases h with
  | obj edited =>
      have h_source : (Omitted.only "weight" out) "source" = false := Bool.and_false out
      have h_replacement : (Omitted.only "weight" out) "replacement" = false := Bool.and_false out
      unfold decode
      rw [Json.fields?, Option.bind_eq_bind, Option.bind_some]
      rw [edited.required "source" rfl h_source (by rintro _ rfl; exact Json.char?_ofChar _),
        edited.required "replacement" rfl h_replacement
          (by rintro _ rfl; exact Json.word?_ofWord _),
        edited.unchanged "weight" rfl (h_num _ h_finite)]
      rfl

end Production

/-! ## Definitions -/

/-- The parts of a definition that are left out. -/
structure Omissions where
  /-- Fields of the definition itself. -/
  fields : Omitted
  /-- The weights of weighted productions, by their places in the list. -/
  weights : ℕ → Bool
  /-- Parameters of operations, by their places in the list of bindings. -/
  parameters : ℕ → Omitted

/-- An edit of a written binding. -/
inductive BindingEdited (o : Omitted) : Json → Json → Prop
  | pair (symbol : Json) {operation operation' : Json}
      (edited : Operation.Edited o operation operation') :
      BindingEdited o (.arr [symbol, operation]) (.arr [symbol, operation'])

/-- Nothing is left out. -/
def Omissions.none : Omissions := ⟨.none, fun _ => false, fun _ => .none⟩

namespace Definition

/-- What an edit may do to the value of a field. -/
def FieldEdited (o : Omissions) (name : String) : Json → Json → Prop :=
  if name = "weighted_productions" then
    Json.ListEdited fun i => Json.RecordEdited (.only "weight" (o.weights i)) fun _ => Eq
  else if name = "bindings" then
    Json.ListEdited fun i => BindingEdited (o.parameters i)
  else Eq

/-- An edit of a written definition: `o` is left out, and fields with other names may be added,
    of the definition, of a weighted production or of the parameters of an operation. -/
def Edited (o : Omissions) : Json → Json → Prop := Json.RecordEdited o.fields (FieldEdited o)

/-- The numbers in the definition. -/
def floats (d : Definition) : List Float32 :=
  d.weightedProductions.map Production.weight ++ d.bindings.flatMap fun b => b.2.floats

/-- The counts have no more bits than are written for them. -/
structure InWidth (d : Definition) : Prop where
  iterations : d.iterations < Json.bound32
  operations : ∀ b ∈ d.bindings, b.2.InWidth

/-- The definition with defaults for the parts that are left out. -/
def without (o : Omissions) (d : Definition) : Definition :=
  let e : Definition := {}
  { seed := o.fields.value "seed" e.seed d.seed
    start := o.fields.value "axiom" e.start d.start
    productions := o.fields.value "productions" e.productions d.productions
    weightedProductions := o.fields.value "weighted_productions" e.weightedProductions
      (d.weightedProductions.mapIdx fun i p => p.without (o.weights i))
    bindings := o.fields.value "bindings" e.bindings
      (d.bindings.mapIdx fun i b => (b.1, b.2.without (o.parameters i)))
    leafMarker := o.fields.value "leaf_marker" e.leafMarker d.leafMarker
    iterations := o.fields.value "iterations" e.iterations d.iterations }

theorem edited_refl (num : Float32 → Json) (d : Definition) :
    Edited .none (d.encode num) (d.encode num) := by
  -- Only these two fields hold records of their own.
  have h_weighted : FieldEdited .none "weighted_productions"
      (.arr (d.weightedProductions.map (Production.encode num)))
      (.arr (d.weightedProductions.map (Production.encode num))) := by
    refine Json.ListEdited.refl fun i item h_item => ?_
    obtain ⟨p, -, rfl⟩ := List.mem_map.mp h_item
    exact .obj (Json.FieldsEdited.refl fun _ _ => rfl)
  have h_bindings : FieldEdited .none "bindings"
      (.arr (d.bindings.map fun b => .arr [.ofChar b.1, b.2.encode num]))
      (.arr (d.bindings.map fun b => .arr [.ofChar b.1, b.2.encode num])) := by
    refine Json.ListEdited.refl fun i item h_item => ?_
    obtain ⟨b, -, rfl⟩ := List.mem_map.mp h_item
    exact .pair _ (b.2.edited_refl num)
  refine .obj (Json.FieldsEdited.refl ?_)
  simp only [List.forall_mem_cons]
  exact ⟨rfl, rfl, rfl, h_weighted, h_bindings, rfl, rfl, List.forall_mem_nil _⟩

/-- Any parts can be left out. -/
theorem exists_edited (num : Float32 → Json) (o : Omissions) (d : Definition) :
    ∃ json', Edited o (d.encode num) json' := by
  have h_weighted : ∃ json', FieldEdited o "weighted_productions"
      (.arr (d.weightedProductions.map (Production.encode num))) json' := by
    refine Json.exists_listEdited fun i item h_item => ?_
    obtain ⟨p, -, rfl⟩ := List.mem_map.mp h_item
    exact Json.exists_recordEdited _ fun f _ => ⟨f.2, rfl⟩
  have h_bindings : ∃ json', FieldEdited o "bindings"
      (.arr (d.bindings.map fun b => .arr [.ofChar b.1, b.2.encode num])) json' := by
    refine Json.exists_listEdited fun i item h_item => ?_
    obtain ⟨b, -, rfl⟩ := List.mem_map.mp h_item
    obtain ⟨_, h_operation⟩ := b.2.exists_edited num (o.parameters i)
    exact ⟨_, .pair _ h_operation⟩
  refine Json.exists_recordEdited o.fields ?_
  simp only [List.forall_mem_cons]
  exact ⟨⟨_, rfl⟩, ⟨_, rfl⟩, ⟨_, rfl⟩, h_weighted, h_bindings, ⟨_, rfl⟩, ⟨_, rfl⟩,
    List.forall_mem_nil _⟩

theorem without_none (d : Definition) : d.without .none = d := by
  have h_weighted : (d.weightedProductions.mapIdx fun _ p => p.without false)
      = d.weightedProductions := by
    refine List.ext_getElem? fun i => ?_
    rw [List.getElem?_mapIdx]
    exact Option.map_id'
  have h_bindings : (d.bindings.mapIdx fun _ b => (b.1, b.2.without .none)) = d.bindings := by
    refine List.ext_getElem? fun i => ?_
    rw [List.getElem?_mapIdx]
    simp only [Operation.without_none, Prod.mk.eta, Option.map_id']
  show { d with weightedProductions := d.weightedProductions.mapIdx fun _ p => p.without false,
                bindings := d.bindings.mapIdx fun _ b => (b.1, b.2.without .none) } = d
  rw [h_weighted, h_bindings]

theorem list?_productions (productions : List (Char × Word)) :
    Json.list? (Json.pair? Json.char? Json.word?)
      (.arr (productions.map fun p => .arr [.ofChar p.1, .ofWord p.2])) = some productions := by
  refine Json.list?_map fun p _ => ?_
  exact Json.pair?_eq (Json.char?_ofChar p.1) (Json.word?_ofWord p.2)

theorem list?_weightedProductions {num : Float32 → Json} (h_num : Json.ReadsBack num)
    {productions : List (Production Float32)}
    (h_finite : ∀ p ∈ productions, p.weight.isFinite = true) {out : ℕ → Bool} {json' : Json}
    (h : Json.ListEdited (fun i => Json.RecordEdited (.only "weight" (out i)) fun _ => Eq)
      (.arr (productions.map (Production.encode num))) json') :
    Json.list? Production.decode json'
      = some (productions.mapIdx fun i p => p.without (out i)) := by
  refine h.list?_eq ?_
  intro i p h_p _ h_item
  exact Production.decode_of_edited h_num (h_finite p h_p) h_item

theorem list?_bindings {num : Float32 → Json} (h_num : Json.ReadsBack num)
    {bindings : List (Char × Operation)}
    (h_finite : ∀ b ∈ bindings, ∀ x ∈ b.2.floats, x.isFinite = true)
    (h_width : ∀ b ∈ bindings, b.2.InWidth) {out : ℕ → Omitted} {json' : Json}
    (h : Json.ListEdited (fun i => BindingEdited (out i))
      (.arr (bindings.map fun b => .arr [.ofChar b.1, b.2.encode num])) json') :
    Json.list? (Json.pair? Json.char? Operation.decode) json'
      = some (bindings.mapIdx fun i b => (b.1, b.2.without (out i))) := by
  refine h.list?_eq ?_
  rintro i b h_b _ ⟨_, h_operation⟩
  exact Json.pair?_eq (Json.char?_ofChar b.1)
    (Operation.decode_of_edited h_num (h_finite b h_b) (h_width b h_b) h_operation)

/-- What is left of a written definition is read as the definition without the rest. -/
theorem decode_of_edited {num : Float32 → Json} (h_num : Json.ReadsBack num) {d : Definition}
    (h_finite : ∀ x ∈ d.floats, x.isFinite = true) (h_width : d.InWidth) {o : Omissions}
    {json' : Json} (h : Edited o (d.encode num) json') : decode json' = some (d.without o) := by
  rw [floats, List.forall_mem_append] at h_finite
  obtain ⟨h_weights, h_parameters⟩ := h_finite
  have h_weights : ∀ p ∈ d.weightedProductions, p.weight.isFinite = true :=
    fun p h_p => h_weights _ (List.mem_map_of_mem h_p)
  have h_parameters : ∀ b ∈ d.bindings, ∀ x ∈ b.2.floats, x.isFinite = true :=
    fun b h_b x h_x => h_parameters x (List.mem_flatMap.mpr ⟨b, h_b, h_x⟩)
  cases h with
  | obj edited =>
      unfold decode
      rw [Json.fields?, Option.bind_eq_bind, Option.bind_some]
      rw [edited.optional "seed" rfl (by rintro _ rfl; exact Json.nat?_ofNat d.seed.toNat_lt),
        edited.optional "axiom" rfl (by rintro _ rfl; exact Json.word?_ofWord _),
        edited.optional "productions" rfl (by rintro _ rfl; exact list?_productions _),
        edited.optional "weighted_productions" rfl
          fun _ h_list => list?_weightedProductions h_num h_weights h_list,
        edited.optional "bindings" rfl
          fun _ h_list => list?_bindings h_num h_parameters h_width.operations h_list,
        edited.optional "leaf_marker" rfl (by rintro _ rfl; exact Json.char?_ofChar _),
        edited.optional "iterations" rfl
          (by rintro _ rfl; exact Json.nat?_ofNat h_width.iterations)]
      -- The seed is read as a number and stored as a word.
      rw [without, ← Omitted.ofNat_value]
      rfl

/-- **Definitions survive being written.**  Let `num` write finite numbers so that they are read
    back, and let a definition have finite numbers and counts in their width.  The written form
    is read as the definition.  An edit can leave out any fields of the definition, weights of its
    weighted productions and parameters of its operations, and may add unknown fields to all of
    them.  What is read then is the definition with defaults for exactly what was left out. -/
theorem decode_written (num : Float32 → Json) (h_num : Json.ReadsBack num) (d : Definition)
    (h_finite : ∀ x ∈ d.floats, x.isFinite = true) (h_width : d.InWidth) :
    decode (d.encode num) = some d ∧
      ∀ o : Omissions, (∃ json', Edited o (d.encode num) json') ∧
        ∀ json', Edited o (d.encode num) json' → decode json' = some (d.without o) := by
  refine ⟨?_, fun o => ⟨d.exists_edited num o, ?_⟩⟩
  · have h_back := decode_of_edited h_num h_finite h_width (d.edited_refl num)
    rwa [without_none] at h_back
  · intro json' h_edited
    exact decode_of_edited h_num h_finite h_width h_edited

/-- Without the seed, a weight and the angle of a turn, and with a comment at each of the three
    places, the definition is read with seed 0, weight 1 and the angle that a turn about `y` has
    by default. -/
theorem decode_written_commented :
    let d : Definition := {
      seed := 0xffffffffffffffff, start := ['S']
      weightedProductions := [⟨'S', ['F', '[', 'r', 'l', ']'], 2.5⟩]
      bindings := [('l', .leaf { minSpacing := some 0.25 }),
        ('r', .rotate { angle := 30.0, jitter := 0.1 }), ('[', .push)]
      iterations := 3 }
    let json' : Json := .obj
      [("comment", .null), ("axiom", .ofWord ['S']), ("productions", .arr []),
        ("weighted_productions", .arr [.obj [("source", .ofChar 'S'), ("comment", .bool true),
          ("replacement", .ofWord ['F', '[', 'r', 'l', ']'])]]),
        ("bindings", .arr [
          .arr [.ofChar 'l', (Operation.leaf { minSpacing := some 0.25 }).encode .ofFloat32],
          .arr [.ofChar 'r', .obj [("Rotate", .obj [("comment", .arr []),
            ("jitter", .ofFloat32 0.1)])]],
          .arr [.ofChar '[', .str "PushState"]]),
        ("leaf_marker", .ofChar 'l'), ("iterations", .ofNat 3)]
    decode d.toJson = some d ∧ decode json' = some { d with
      seed := 0
      weightedProductions := [⟨'S', ['F', '[', 'r', 'l', ']'], 1.0⟩]
      bindings := [('l', .leaf { minSpacing := some 0.25 }),
        ('r', .rotate { angle := 45.0, jitter := 0.1 }), ('[', .push)] } := by
  intro d json'
  have h_finite : ∀ x ∈ d.floats, x.isFinite = true := by decide
  have h_width : d.InWidth := by
    refine ⟨by decide, ?_⟩
    intro b h_b
    simp only [d, List.mem_cons, List.not_mem_nil, or_false] at h_b
    rcases h_b with rfl | rfl | rfl
    · exact ⟨by decide, by decide⟩
    · trivial
    · trivial
  obtain ⟨h_back, h_edits⟩ := decode_written .ofFloat32 Json.readsBack_ofFloat32 d h_finite h_width
  let o : Omissions := {
    fields := fun name => name == "seed"
    weights := fun i => i == 0
    parameters := fun i name => i == 1 && name == "angle" }
  have h_weighted : ∀ i, Option.Rel
      (Json.RecordEdited (.only "weight" (o.weights i)) fun _ => Eq)
      [Production.encode .ofFloat32 ⟨'S', ['F', '[', 'r', 'l', ']'], 2.5⟩][i]?
      [Json.obj [("source", .ofChar 'S'), ("comment", .bool true),
        ("replacement", .ofWord ['F', '[', 'r', 'l', ']'])]][i]? := by
    rintro (_ | _)
    · exact .some (.obj (.cons ⟨rfl, rfl⟩ (.cons ⟨rfl, rfl⟩ .nil)))
    · exact .none
  have h_turn : BindingEdited (o.parameters 1)
      (.arr [.ofChar 'r', (Operation.rotate { angle := 30.0, jitter := 0.1 }).encode .ofFloat32])
      (.arr [.ofChar 'r', .obj [("Rotate", .obj [("comment", .arr []),
        ("jitter", .ofFloat32 0.1)])]]) :=
    .pair _ (.record _ (.obj (.cons ⟨rfl, rfl⟩ .nil)))
  have h_edited : Edited o d.toJson json' := by
    refine .obj (.cons ⟨rfl, rfl⟩ (.cons ⟨rfl, rfl⟩ (.cons ⟨rfl, .arr h_weighted⟩
      (.cons ⟨rfl, .arr ?_⟩ (.cons ⟨rfl, rfl⟩ (.cons ⟨rfl, rfl⟩ .nil))))))
    rintro (_ | _ | _ | _)
    · exact .some (.pair _ (Operation.edited_refl _ _))
    · exact .some h_turn
    · exact .some (.pair _ (.name _))
    · exact .none
  exact ⟨h_back, (h_edits o).2 json' h_edited⟩

end Definition

end Verdure
