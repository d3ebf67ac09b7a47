/-
  Verdure.Proofs.Grammar.Interleaving

  Registrations for different symbols do not touch each other.

  What a grammar has for a symbol is told by the calls for that symbol in the order they were
  made (`acceptedFor_eq_filterMap_callsFor`).  How the calls for different symbols are
  interleaved makes no difference to the sets, nor to what is derived with them.  A definition
  makes one call for each of its productions (`Definition.grammar_eq`), so its entries for
  different symbols may change places, and the plant stays the same.
-/
import Verdure.Definition
import Verdure.Proofs.Grammar.History

namespace Verdure

namespace Grammar

open ProductionSet (validWeight)

/-! ## Calls for a symbol -/

/-- The symbol that a request is about, if it asks for a production. -/
def Request.source? : Request → Option Char
  | .restart _ => none
  | .add symbol _ => some symbol
  | .addWeighted p => some p.source

/-- The registrations among the requests that are for a symbol, accepted or refused, in
    order. -/
def callsFor (requests : List Request) (symbol : Char) : List Request :=
  requests.filter (·.source? = some symbol)

/-- Neighbours with different keys may change places, for those who look for one key. -/
theorem filter_key_swap {α κ : Type} [DecidableEq κ] (key : α → κ) (k : κ) (before later : List α)
    {x y : α} (h : key x ≠ key y) :
    (before ++ x :: y :: later).filter (key · = k)
      = (before ++ y :: x :: later).filter (key · = k) := by
  by_cases h_x : key x = k
  · have h_y : ¬key y = k := fun h_y => h (h_x.trans h_y.symm)
    simp [h_x, h_y]
  · simp [List.filter_cons, h_x]

/-- Neighbouring calls for different symbols may change places. -/
theorem callsFor_swap (before later : List Request) {x y : Request}
    (h : x.source? ≠ y.source?) (symbol : Char) :
    callsFor (before ++ x :: y :: later) symbol = callsFor (before ++ y :: x :: later) symbol :=
  filter_key_swap Request.source? (some symbol) before later h

theorem source?_of_accepted? {request : Request} {p : Production Float32}
    (h : request.accepted? = some p) : request.source? = some p.source := by
  cases request with
  | restart start => cases h
  | add symbol replacement =>
      cases h
      rfl
  | addWeighted q =>
      rw [Request.accepted?] at h
      split at h
      next =>
        cases h
        rfl
      next => cases h

/-- The productions that are accepted for a symbol are told by the calls for it. -/
theorem acceptedFor_eq_filterMap_callsFor (requests : List Request) (symbol : Char) :
    acceptedFor requests symbol = (callsFor requests symbol).filterMap Request.accepted? := by
  induction requests with
  | nil => rfl
  | cons request rest ih =>
      rw [acceptedFor, callsFor] at ih ⊢
      cases h_accepted : request.accepted? with
      | none =>
          rw [List.filterMap_cons_none h_accepted, ih]
          by_cases h_source : request.source? = some symbol
          · simp [h_source, h_accepted]
          · simp [h_source]
      | some p =>
          have h_source := source?_of_accepted? h_accepted
          rw [List.filterMap_cons_some h_accepted]
          by_cases h_symbol : p.source = symbol
          · simp [h_source, h_symbol, h_accepted, ih]
          · simp [h_source, h_symbol, ih]

/-- The sets do not depend on how the calls for different symbols are interleaved. -/
theorem sets_ofRequests_congr (start start' : Word) {requests requests' : List Request}
    (h : ∀ symbol, callsFor requests symbol = callsFor requests' symbol) :
    (ofRequests start requests).sets = (ofRequests start' requests').sets := by
  refine Std.ExtTreeMap.ext_getElem? fun symbol => ?_
  show (ofRequests start requests).set? symbol = (ofRequests start' requests').set? symbol
  rw [set?_ofRequests, set?_ofRequests, acceptedFor_eq_filterMap_callsFor,
    acceptedFor_eq_filterMap_callsFor, h symbol]

/-- A grammar with the sets that requests lead to derives what they derive. -/
theorem exists_derive_of_sets_eq (start : Word) (requests : List Request) {g : Grammar}
    (h : (ofRequests start requests).sets = g.sets) (u : Word) (passes : Nat)
    (noise : Noise.Source) :
    ∃ word, { ofRequests start requests with start := u }.derive passes noise = .ok word ∧
      { g with start := u }.derive passes noise = .ok word := by
  obtain ⟨word, h_word⟩ :=
    (built_ofRequests start requests).wellFormed.exists_deriveFrom noise 0 passes u
  have h_same : { ofRequests start requests with start := u } = { g with start := u } :=
    congrArg (Grammar.mk u) h
  rw [← h_same, derive, deriveFrom_restart]
  exact ⟨word, h_word, h_word⟩

/-! ## Start words -/

/-- The start word stays, unless a request is to start from another one. -/
theorem start_after (g : Grammar) {request : Request} (h : request.source?.isSome = true) :
    (g.after request).start = g.start := by
  cases request with
  | restart start => cases h
  | add symbol replacement => rfl
  | addWeighted p =>
      rw [after, answer, addWeighted]
      by_cases h_weight : validWeight p.weight = true
      · rw [if_pos h_weight]
        rfl
      · rw [if_neg h_weight]

theorem start_ofRequests (start : Word) {requests : List Request}
    (h : ∀ request ∈ requests, request.source?.isSome = true) :
    (ofRequests start requests).start = start := by
  induction requests using List.reverseRecOn with
  | nil => rfl
  | append_singleton requests request ih =>
      rw [List.forall_mem_append, List.forall_mem_singleton] at h
      rw [ofRequests_concat, start_after _ h.2, ih h.1]

end Grammar

/-! ## Definitions -/

namespace Definition

open Grammar (Request ofRequests callsFor)
open ProductionSet (validWeight)

/-- The requests that the grammar of a definition is built by. -/
def requests (d : Definition) : List Request :=
  d.productions.map (fun (symbol, replacement) => .add symbol replacement) ++
    d.weightedProductions.map .addWeighted

/-- Weighted productions are registered up to the first one with an invalid weight. -/
theorem foldlM_addWeighted (g : Grammar) (productions : List (Production Float32)) :
    productions.foldlM Grammar.addWeighted g =
      match productions.find? fun p => !validWeight p.weight with
      | some p => .error (.invalidWeight p.source p.weight)
      | none => .ok ((productions.map Request.addWeighted).foldl Grammar.after g) := by
  induction productions generalizing g with
  | nil => rfl
  | cons p rest ih =>
      rw [List.foldlM_cons, List.find?_cons]
      by_cases h : validWeight p.weight = true
      · have h_after : g.after (.addWeighted p) = g.register p := by
          simp [Grammar.after, Grammar.answer, Grammar.addWeighted, h]
        have h_add : g.addWeighted p = .ok (g.register p) := by
          simp [Grammar.addWeighted, h]
        rw [h_add, h, List.map_cons, List.foldl_cons, h_after]
        exact ih (g.register p)
      · have h_add : g.addWeighted p = .error (.invalidWeight p.source p.weight) := by
          simp [Grammar.addWeighted, h]
        rw [h_add, Bool.eq_false_iff.mpr h]
        rfl

/-- The grammar of a definition is that of its requests, or there is none because of the first
    weight that is not valid. -/
theorem grammar_eq (d : Definition) :
    d.grammar =
      match d.weightedProductions.find? fun p => !validWeight p.weight with
      | some p => .error (.invalidWeight p.source p.weight)
      | none => .ok (ofRequests d.start d.requests) := by
  have h_plain : d.productions.foldl (fun g (symbol, replacement) => g.add symbol replacement)
      (.ofStart d.start) = (d.productions.map fun (symbol, replacement) =>
        Request.add symbol replacement).foldl Grammar.after (.ofStart d.start) := by
    rw [List.foldl_map]
    rfl
  rw [grammar, foldlM_addWeighted, h_plain, ofRequests, requests, List.foldl_append]

/-- The plant that a definition describes, if its weights are valid. -/
def plant (d : Definition) : Plant where
  grammar := ofRequests d.start d.requests
  bindings := d.table
  noise := .ofSeed d.seed

theorem build_eq (d : Definition) :
    d.build =
      match d.weightedProductions.find? fun p => !validWeight p.weight with
      | some p => .error (.invalidWeight p.source p.weight)
      | none => .ok d.plant := by
  rw [build, grammar_eq]
  cases d.weightedProductions.find? fun p => !validWeight p.weight <;> rfl

theorem build_eq_ok_iff (d : Definition) (plant : Plant) :
    d.build = .ok plant ↔
      (∀ p ∈ d.weightedProductions, validWeight p.weight = true) ∧ d.plant = plant := by
  rw [build_eq]
  split
  next p h_find =>
    refine iff_of_false nofun ?_
    rintro ⟨h_valid, -⟩
    have h_weight := List.find?_some h_find
    rw [h_valid p (List.mem_of_find?_eq_some h_find)] at h_weight
    cases h_weight
  next h_find =>
    have h_valid : ∀ p ∈ d.weightedProductions, validWeight p.weight = true := by
      simpa using List.find?_eq_none.mp h_find
    rw [Except.ok.injEq, and_iff_right h_valid]

theorem start_ofRequests_requests (d : Definition) :
    (ofRequests d.start d.requests).start = d.start := by
  refine Grammar.start_ofRequests d.start fun request h => ?_
  rw [requests, List.mem_append, List.mem_map, List.mem_map] at h
  obtain ⟨_, -, rfl⟩ | ⟨_, -, rfl⟩ := h <;> rfl

theorem callsFor_requests (d : Definition) (symbol : Char) :
    callsFor d.requests symbol =
      (d.productions.filter (·.1 = symbol)).map
          (fun (symbol, replacement) => .add symbol replacement) ++
        (d.weightedProductions.filter (·.source = symbol)).map .addWeighted := by
  rw [callsFor, requests, List.filter_append, List.filter_map, List.filter_map]
  simp only [Function.comp_def, Request.source?, Option.some.injEq]

/-! ## Other orders -/

/-- Two definitions that differ in the order of their productions, and list those of each symbol
    in the same order. -/
structure Reorders (d d' : Definition) : Prop where
  others : { d' with
    productions := d.productions, weightedProductions := d.weightedProductions } = d
  plain : ∀ symbol,
    d.productions.filter (·.1 = symbol) = d'.productions.filter (·.1 = symbol)
  weighted : ∀ symbol,
    d.weightedProductions.filter (·.source = symbol)
      = d'.weightedProductions.filter (·.source = symbol)

namespace Reorders

variable {d d' : Definition}

theorem symm (h : d.Reorders d') : d'.Reorders d := by
  refine ⟨?_, fun symbol => (h.plain symbol).symm, fun symbol => (h.weighted symbol).symm⟩
  rw [← h.others]

theorem mem_weightedProductions (h : d.Reorders d') {p : Production Float32}
    (h_p : p ∈ d'.weightedProductions) : p ∈ d.weightedProductions := by
  have h_filter : p ∈ d'.weightedProductions.filter (·.source = p.source) := by
    simpa using h_p
  rw [← h.weighted] at h_filter
  exact List.mem_of_mem_filter h_filter

theorem plant_eq (h : d.Reorders d') : d.plant = d'.plant := by
  have h_calls : ∀ symbol, callsFor d.requests symbol = callsFor d'.requests symbol := by
    intro symbol
    rw [callsFor_requests, callsFor_requests, h.plain, h.weighted]
  have h_start : d.start = d'.start := by rw [← h.others]
  have h_starts : (ofRequests d.start d.requests).start
      = (ofRequests d'.start d'.requests).start := by
    rw [start_ofRequests_requests, start_ofRequests_requests, h_start]
  have h_grammar : ofRequests d.start d.requests = ofRequests d'.start d'.requests :=
    congrArg₂ Grammar.mk h_starts (Grammar.sets_ofRequests_congr _ _ h_calls)
  have h_table : d.table = d'.table := by
    rw [← h.others]
    rfl
  have h_seed : d.seed = d'.seed := by rw [← h.others]
  rw [plant, plant, h_grammar, h_table, h_seed]

theorem build_of_eq_ok (h : d.Reorders d') {plant : Plant} (h_build : d.build = .ok plant) :
    d'.build = .ok plant := by
  rw [build_eq_ok_iff] at h_build ⊢
  refine ⟨?_, h.plant_eq ▸ h_build.2⟩
  intro p h_p
  exact h_build.1 p (h.mem_weightedProductions h_p)

theorem construct_eq (h : d.Reorders d') {plant : Plant} (h_build : d.build = .ok plant)
    (scene : Scene) : d.construct scene = d'.construct scene := by
  have h_iterations : d.iterations = d'.iterations := by rw [← h.others]
  rw [construct, construct, h_build, h.build_of_eq_ok h_build, h_iterations]

end Reorders

/-- Neighbouring weighted productions may change places, unless they are of one symbol. -/
theorem reorders_swap_weighted (d : Definition) (before later : List (Production Float32))
    {x y : Production Float32} (h : x.source ≠ y.source) :
    { d with weightedProductions := before ++ x :: y :: later }.Reorders
      { d with weightedProductions := before ++ y :: x :: later } :=
  ⟨rfl, fun _ => rfl, fun symbol => Grammar.filter_key_swap _ symbol before later h⟩

end Definition

/-! ## The order of different symbols -/

namespace Grammar

/-- **Only the order within a symbol counts.**  Let two sequences of requests make the same calls
    for each symbol in the same order.  Then the grammars have the same sets, and from any word,
    in any number of passes and with any noise, the same word is derived.  So if two definitions
    differ only in how the productions of different symbols are listed among each other, the same
    plant is built from both, or none from either, and in any scene it is constructed the same
    way.  Where none is built, the error names the first invalid weight, which may be another
    one. -/
theorem sets_of_interleavings :
    (∀ start start' requests requests',
      (∀ symbol, callsFor requests symbol = callsFor requests' symbol) →
      (ofRequests start requests).sets = (ofRequests start' requests').sets ∧
      ∀ u passes noise, ∃ word,
        { ofRequests start requests with start := u }.derive passes noise = .ok word ∧
        { ofRequests start' requests' with start := u }.derive passes noise = .ok word) ∧
    ∀ d d' : Definition, d.Reorders d' →
      (∀ plant, d.build = .ok plant ↔ d'.build = .ok plant) ∧
      ∀ plant, d.build = .ok plant → ∀ scene, d.construct scene = d'.construct scene := by
  refine ⟨?_, ?_⟩
  · intro start start' requests requests' h
    have h_sets := sets_ofRequests_congr start start' h
    exact ⟨h_sets, exists_derive_of_sets_eq start requests h_sets⟩
  · intro d d' h
    refine ⟨fun plant => ⟨h.build_of_eq_ok, h.symm.build_of_eq_ok⟩, ?_⟩
    intro plant h_build scene
    exact h.construct_eq h_build scene

/-- A call for one symbol made between two calls for another, or before them, and a definition
    with the productions of two symbols listed either way. -/
theorem sets_of_interleavings_two_symbols :
    let grammar := ofRequests ['A', 'B']
      [.addWeighted ⟨'A', ['A', 'B'], 0.1⟩, .addWeighted ⟨'B', ['B'], 2.0⟩,
        .addWeighted ⟨'A', ['B'], 0.2⟩]
    let grammar' := ofRequests ['A', 'B']
      [.addWeighted ⟨'B', ['B'], 2.0⟩, .addWeighted ⟨'A', ['A', 'B'], 0.1⟩,
        .addWeighted ⟨'A', ['B'], 0.2⟩]
    let d : Definition :=
      { start := ['A'], iterations := 2
        weightedProductions := [⟨'A', ['A', 'B'], 0.1⟩, ⟨'B', ['B'], 2.0⟩] }
    let d' : Definition :=
      { start := ['A'], iterations := 2
        weightedProductions := [⟨'B', ['B'], 2.0⟩, ⟨'A', ['A', 'B'], 0.1⟩] }
    grammar.sets = grammar'.sets ∧
      (∃ word, { grammar with start := ['A'] }.derive 3 (.ofSeed 7) = .ok word ∧
        { grammar' with start := ['A'] }.derive 3 (.ofSeed 7) = .ok word) ∧
      ∃ plant, d.build = .ok plant ∧ d'.build = .ok plant ∧
        ∀ scene, d.construct scene = d'.construct scene := by
  intro grammar grammar' d d'
  have h_calls := callsFor_swap [] [.addWeighted ⟨'A', ['B'], 0.2⟩]
    (x := .addWeighted ⟨'A', ['A', 'B'], 0.1⟩) (y := .addWeighted ⟨'B', ['B'], 2.0⟩) (by decide)
  have h_reorders : d.Reorders d' :=
    Definition.reorders_swap_weighted { start := ['A'], iterations := 2 } [] [] (by decide)
  obtain ⟨h_sets, h_derive⟩ := sets_of_interleavings.1 ['A', 'B'] ['A', 'B'] _ _ h_calls
  obtain ⟨h_build, h_construct⟩ := sets_of_interleavings.2 d d' h_reorders
  have h_plant : d.build = .ok d.plant :=
    (d.build_eq_ok_iff d.plant).mpr ⟨by decide +kernel, rfl⟩
  exact ⟨h_sets, h_derive ['A'] 3 (.ofSeed 7), d.plant, h_plant, (h_build _).mp h_plant,
    h_construct _ h_plant⟩

/-- Within a symbol the order does count: the same sample chooses the other production. -/
example :
    let g := ofRequests ['A'] [.add 'A' ['B'], .add 'A' ['C']]
    let g' := ofRequests ['A'] [.add 'A' ['C'], .add 'A' ['B']]
    g.derive 1 (.ofSeed 7) ≠ g'.derive 1 (.ofSeed 7) := by
  decide +kernel

end Grammar

end Verdure
