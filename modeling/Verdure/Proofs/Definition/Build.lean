/-
  Verdure.Proofs.Definition.Build

  What is built from a definition, and what its construction leaves in a scene.

  `build_eq` splits definitions by their first refused weight.  A definition with one describes
  no plant, and no scene is touched.  Any other definition describes a plant: its sets hold what
  `productionsFor` lists, and of several operations for a symbol the last one counts
  (`operation?_bindAll`).  The grammar is one that can be built, so a word is always derived, and
  only the run over that word can fail, in a scene whose count of collisions was reset.
-/
import Verdure.Proofs.Grammar.Edit
import Verdure.Proofs.Grammar.Interleaving
import Verdure.Proofs.Run.Brackets
import Verdure.Proofs.Run.Sinks

namespace Verdure

/-! ## Operations of a list -/

namespace Bindings

/-- The last entry of a list for a symbol is the operation. -/
def LastFor (entries : List (Char × Operation)) (symbol : Char) (operation : Operation) : Prop :=
  ∃ before later, entries = before ++ (symbol, operation) :: later ∧
    ∀ entry ∈ later, entry.1 ≠ symbol

theorem find?_reverse_eq_some_iff (entries : List (Char × Operation)) (symbol : Char)
    (operation : Operation) :
    entries.reverse.find? (·.1 = symbol) = some (symbol, operation) ↔
      LastFor entries symbol operation := by
  rw [List.find?_eq_some_iff_append]
  simp only [decide_true, true_and, Bool.not_eq_true', decide_eq_false_iff_not]
  constructor
  · rintro ⟨later, before, h_entries, h_later⟩
    rw [List.reverse_eq_iff] at h_entries
    refine ⟨before.reverse, later.reverse, by simp [h_entries], ?_⟩
    intro entry h
    exact h_later entry (List.mem_reverse.mp h)
  · rintro ⟨before, later, h_entries, h_later⟩
    refine ⟨later.reverse, before.reverse, by simp [h_entries], ?_⟩
    intro entry h
    exact h_later entry (List.mem_reverse.mp h)

/-- Of the operations that are bound to a symbol one after the other the last one counts, and
    without any the symbol keeps what it had. -/
theorem operation?_bindAll (bindings : Bindings) (entries : List (Char × Operation))
    (symbol : Char) :
    (entries.foldl (fun table (symbol, operation) => table.bind symbol operation)
        bindings).operation? symbol =
      match entries.reverse.find? (·.1 = symbol) with
      | some entry => some entry.2
      | none => bindings.operation? symbol := by
  induction entries using List.reverseRecOn with
  | nil => rfl
  | append_singleton entries entry ih =>
      rw [List.foldl_concat, List.reverse_concat, List.find?_cons, operation?_bind]
      by_cases h : entry.1 = symbol
      · simp [h]
      · simp [h, ih]

end Bindings

namespace Definition

open Grammar (acceptedFor callsFor ofRequests HoldsAccepted)
open ProductionSet (validWeight)

/-! ## Weights -/

/-- A weight that is NaN, infinite or not above zero. -/
def Refused (weight : Float32) : Prop :=
  weight.isNaN = true ∨ weight.isInf = true ∨ weight ≤ 0.0

/-- The first weighted production whose weight is refused. -/
def FirstRefused (d : Definition) (p : Production Float32) : Prop :=
  Refused p.weight ∧ ∃ before later, d.weightedProductions = before ++ p :: later ∧
    ∀ q ∈ before, ¬Refused q.weight

theorem not_validWeight_iff_refused (weight : Float32) :
    ¬validWeight weight = true ↔ Refused weight :=
  ProductionSet.not_validWeight_iff weight

theorem validWeight_iff_not_refused (weight : Float32) :
    validWeight weight = true ↔ ¬Refused weight := by
  rw [← not_validWeight_iff_refused, not_not]

theorem find?_weightedProductions_eq_some_iff (d : Definition) (p : Production Float32) :
    (d.weightedProductions.find? fun p => !validWeight p.weight) = some p ↔ d.FirstRefused p := by
  rw [List.find?_eq_some_iff_append]
  simp only [FirstRefused, Bool.not_eq_true', Bool.not_not, validWeight_iff_not_refused,
    ← Bool.not_eq_true, not_not]

theorem build_eq_error_iff (d : Definition) (e : PlantError) :
    d.build = .error e ↔ ∃ p, d.FirstRefused p ∧ e = .invalidWeight p.source p.weight := by
  simp only [← find?_weightedProductions_eq_some_iff]
  rw [build_eq]
  cases d.weightedProductions.find? fun p => !validWeight p.weight with
  | none => simp
  | some p => simp [eq_comm]

theorem exists_build_eq_error_iff (d : Definition) :
    (∃ e, d.build = .error e) ↔ ∃ p ∈ d.weightedProductions, Refused p.weight := by
  rw [build_eq]
  cases h_find : d.weightedProductions.find? fun p => !validWeight p.weight with
  | none =>
      have h_valid := List.find?_eq_none.mp h_find
      simpa [not_validWeight_iff_refused, validWeight_iff_not_refused] using h_valid
  | some p =>
      obtain ⟨h_refused, -⟩ := (d.find?_weightedProductions_eq_some_iff p).mp h_find
      exact iff_of_true ⟨_, rfl⟩ ⟨p, List.mem_of_find?_eq_some h_find, h_refused⟩

/-! ## What is described -/

/-- The productions that a definition lists for a symbol, those of weight 1 first. -/
def productionsFor (d : Definition) (symbol : Char) : List (Production Float32) :=
  (d.productions.filter (·.1 = symbol)).map
      (fun (symbol, replacement) => ⟨symbol, replacement, 1.0⟩) ++
    d.weightedProductions.filter (·.source = symbol)

/-- The plant is the one that the definition describes. -/
structure Describes (d : Definition) (plant : Plant) : Prop where
  start_eq : plant.grammar.start = d.start
  set?_eq_none_iff : ∀ symbol, plant.grammar.set? symbol = none ↔ d.productionsFor symbol = []
  set?_eq_some : ∀ symbol set, plant.grammar.set? symbol = some set →
    HoldsAccepted symbol (d.productionsFor symbol) set
  operation?_eq_some_iff : ∀ symbol operation,
    plant.bindings.operation? symbol = some operation ↔
      Bindings.LastFor d.bindings symbol operation
  leafMarker_eq : plant.bindings.leafMarker = d.leafMarker
  noise_eq : plant.noise = .ofSeed d.seed

theorem acceptedFor_requests (d : Definition)
    (h : ∀ p ∈ d.weightedProductions, validWeight p.weight = true) (symbol : Char) :
    acceptedFor d.requests symbol = d.productionsFor symbol := by
  have h_weighted : (d.weightedProductions.filter (·.source = symbol)).filterMap
      (fun p => if validWeight p.weight = true then some p else none)
      = d.weightedProductions.filter (·.source = symbol) := by
    rw [List.filterMap_congr fun p h_p => if_pos (h p (List.mem_of_mem_filter h_p))]
    exact List.filterMap_some
  rw [Grammar.acceptedFor_eq_filterMap_callsFor, callsFor_requests, List.filterMap_append,
    List.filterMap_map, List.filterMap_map]
  simp only [Function.comp_def, Grammar.Request.accepted?]
  rw [h_weighted, productionsFor, ← List.filterMap_eq_map]
  rfl

theorem leafMarker_bindAll (bindings : Bindings) (entries : List (Char × Operation)) :
    (entries.foldl (fun table (symbol, operation) => table.bind symbol operation)
      bindings).leafMarker = bindings.leafMarker := by
  induction entries generalizing bindings with
  | nil => rfl
  | cons entry rest ih => exact ih (bindings.bind entry.1 entry.2)

theorem operation?_table_eq_some_iff (d : Definition) (symbol : Char) (operation : Operation) :
    d.table.operation? symbol = some operation ↔
      Bindings.LastFor d.bindings symbol operation := by
  have h_empty : Bindings.operation? { leafMarker := d.leafMarker } symbol = none := by
    simp [Bindings.operation?]
  rw [← Bindings.find?_reverse_eq_some_iff, table, Bindings.operation?_bindAll, h_empty]
  cases h_find : d.bindings.reverse.find? (·.1 = symbol) with
  | none => simp
  | some entry =>
      have h_symbol : entry.1 = symbol := by simpa using List.find?_some h_find
      simp [Prod.ext_iff, h_symbol]

theorem describes_plant (d : Definition)
    (h : ∀ p ∈ d.weightedProductions, validWeight p.weight = true) : d.Describes d.plant where
  start_eq := d.start_ofRequests_requests
  set?_eq_none_iff symbol := by
    rw [← d.acceptedFor_requests h]
    exact Grammar.set?_ofRequests_eq_none_iff d.start d.requests symbol
  set?_eq_some symbol set h_set := by
    rw [← d.acceptedFor_requests h]
    exact Grammar.holdsAccepted_of_set? h_set
  operation?_eq_some_iff := d.operation?_table_eq_some_iff
  leafMarker_eq := leafMarker_bindAll _ d.bindings
  noise_eq := rfl

end Definition

/-! ## Constructions -/

namespace Plant

/-- The run over a word in a scene whose count of collisions is reset. -/
def growth (plant : Plant) (word : Word) (scene : Scene) : Outcome :=
  plant.bindings.run plant.noise word { scene with collisionCount := 0 } .empty

/-- A construction that got as far as the run over a word. -/
structure Grows (plant : Plant) (word : Word) (scene : Scene)
    (constructed : Scene × Except PlantError Construction) : Prop where
  scene_eq : constructed.1 = (plant.growth word scene).state.scene
  result_eq : constructed.2 = (plant.growth word scene).result.map fun summary => ⟨word, summary⟩
  /-- The collisions of this run are counted, whether it failed or not. -/
  collisionCount_eq :
    constructed.1.collisionCount = (plant.growth word scene).state.summary.collisions
  /-- What the sinks held stays in front. -/
  collects : ∃ parts : Parts, parts.leaves.size = scene.leaves.size ∧
    constructed.1 = scene.collect parts constructed.1.collisionCount
  error_iff : ∀ e, constructed.2 = .error e ↔
    ∃ i, e = .stackUnderflow i ∧ plant.bindings.FirstDeficit word i

theorem growth_result_eq_error_iff (plant : Plant) (word : Word) (scene : Scene)
    (e : PlantError) :
    ((plant.growth word scene).result.map fun summary => (⟨word, summary⟩ : Construction))
        = .error e ↔
      ∃ i, e = .stackUnderflow i ∧ plant.bindings.FirstDeficit word i := by
  rw [← Bindings.result_run_eq_error_iff_firstDeficit plant.bindings plant.noise word
    { scene with collisionCount := 0 } .empty, growth]
  cases (plant.bindings.run plant.noise word { scene with collisionCount := 0 } .empty).result with
  | ok summary => simp [Except.map]
  | error e' => simp [Except.map]

/-- A plant whose grammar can be built derives a word, and its construction is the run over that
    word. -/
theorem exists_grows (plant : Plant) (h_built : plant.grammar.Built) (passes : Nat)
    (scene : Scene) :
    ∃ word, plant.derive passes = .ok word ∧
      plant.Grows word scene (plant.construct passes scene) := by
  obtain ⟨word, h_word⟩ := h_built.wellFormed.exists_derive passes plant.noise
  have h_derive : plant.derive passes = .ok word := h_word
  have h_construct : plant.construct passes scene = ((plant.growth word scene).state.scene,
      (plant.growth word scene).result.map fun summary => ⟨word, summary⟩) := by
    rw [construct, h_derive]
    rfl
  -- The run adds the parts of the run in the blank scene, which counts from zero.
  obtain ⟨h_added, h_ready⟩ := plant.bindings.run_addedTo plant.noise word scene
  have h_state : (plant.growth word scene).state
      = (plant.bindings.run plant.noise word scene.blank .empty).state.addedTo scene :=
    congrArg Outcome.state h_added
  refine ⟨word, h_derive, ?_⟩
  rw [h_construct]
  refine ⟨rfl, rfl, ?_, ?_, fun e => plant.growth_result_eq_error_iff word scene e⟩
  · rw [h_state]
    exact h_ready.counted
  · rw [h_state]
    exact ⟨_, h_ready.alike.leaves_size, rfl⟩

end Plant

/-! ## Definitions -/

namespace Definition

open ProductionSet (validWeight)

/-- **Only weights are refused.**  Nothing is built from a definition exactly if some weighted
    production has a weight that is NaN, infinite or not above zero.  The error then names the
    first such production of the list, and a construction leaves the scene as it was.  From any
    other definition a plant is built.  Its productions for a symbol are those of weight 1 and
    then the weighted ones, in the order of the lists, and its operation for a symbol is the last
    one listed.  A construction of it derives a word and resets the count of collisions; after
    that it fails only where the word restores with nothing saved, and what was placed before
    stays in the scene.  Neighbour counts have their room (`PointTree.HasRoom`). -/
theorem build_and_construct (d : Definition) :
    ((∃ e, d.build = .error e) ↔ ∃ p ∈ d.weightedProductions, Refused p.weight) ∧
    (∀ e, d.build = .error e ↔ ∃ p, d.FirstRefused p ∧ e = .invalidWeight p.source p.weight) ∧
    (∀ e, d.build = .error e → ∀ scene, d.construct scene = (scene, .error e)) ∧
    ((∀ p ∈ d.weightedProductions, ¬Refused p.weight) →
      ∃ plant, d.build = .ok plant ∧ d.Describes plant ∧
        ∀ scene, ∃ word, plant.derive d.iterations = .ok word ∧
          plant.Grows word scene (d.construct scene)) := by
  refine ⟨d.exists_build_eq_error_iff, d.build_eq_error_iff, ?_, ?_⟩
  · intro e h_build scene
    rw [construct, h_build]
  · intro h
    have h_valid : ∀ p ∈ d.weightedProductions, validWeight p.weight = true :=
      fun p h_p => (validWeight_iff_not_refused p.weight).mpr (h p h_p)
    have h_build : d.build = .ok d.plant := (d.build_eq_ok_iff d.plant).mpr ⟨h_valid, rfl⟩
    refine ⟨d.plant, h_build, d.describes_plant h_valid, ?_⟩
    intro scene
    rw [construct, h_build]
    exact d.plant.exists_grows (Grammar.built_ofRequests d.start d.requests) d.iterations scene

/-- Two refused weights behind a valid one. -/
example :
    let d : Definition := { weightedProductions := [⟨'F', ['F', 'F'], 0.5⟩, ⟨'G', [], -2.0⟩,
      ⟨'F', [], 0.0⟩] }
    (d.build.map fun _ => ()) = .error (.invalidWeight 'G' (-2.0)) := by
  decide +kernel

end Definition

end Verdure
