/-
  Verdure.Proofs.Grammar.Edit

  Edits of a grammar are all or nothing.

  The steps of a registration together do what `register` does at once (`run_openSet_append`),
  and the check that may fail comes before the steps that change anything.  So edits one after
  the other lead to the grammar of the requests that they carry out (`edited_eq_ofRequests`),
  and an edit that fails leaves no trace.
-/
import Verdure.Grammar.Edit
import Verdure.Proofs.Grammar.History

namespace Verdure.Grammar

open ProductionSet (validWeight)

/-! ## Single edits -/

theorem modify_insertIfNew_sets (g : Grammar) (p : Production Float32) :
    (g.sets.insertIfNew p.source (.empty p.source)).modify p.source (·.add p)
      = (g.register p).sets := by
  refine Std.ExtTreeMap.ext_getElem? fun symbol => ?_
  simp only [register, set?, Std.ExtTreeMap.getElem?_modify, Std.ExtTreeMap.getElem?_insert,
    Std.ExtTreeMap.getElem?_insertIfNew]
  by_cases h : p.source = symbol
  · subst h
    -- The set is there already, or it is the empty one that was opened.
    by_cases h_mem : p.source ∈ g.sets
    · simp [h_mem]
    · simp [h_mem]
  · simp [h]

/-- To open the set of a production and to put the production at its end is to register it. -/
theorem run_openSet_append (g : Grammar) (p : Production Float32) :
    (do Edit.openSet p.source; Edit.append p : Edit).run g = .ok () (g.register p) := by
  show EStateM.Result.ok () { g with sets := _ } = _
  rw [modify_insertIfNew_sets]
  rfl

/-- A weighted production is registered, or the edit fails and the grammar is as it was. -/
theorem run_addWeighted (g : Grammar) (p : Production Float32) :
    (Edit.addWeighted p).run g =
      if validWeight p.weight then .ok () (g.register p)
      else .error (.invalidWeight p.source p.weight) g := by
  by_cases h : validWeight p.weight = true
  · rw [if_pos h, ← run_openSet_append, Edit.addWeighted, Edit.checkWeight, if_pos h]
    rfl
  · rw [if_neg h, Edit.addWeighted, Edit.checkWeight, if_neg h]
    rfl

/-- The edit that carries out a request. -/
def Request.edit : Request → Edit
  | .restart start => Edit.restart start
  | .add symbol replacement => Edit.add symbol replacement
  | .addWeighted p => Edit.addWeighted p

/-- What an edit leaves is what the grammar is after the request. -/
theorem leaves_edit (g : Grammar) (request : Request) :
    request.edit.leaves g = g.after request := by
  cases request with
  | restart start => rfl
  | add symbol replacement =>
      rw [Edit.leaves, Request.edit, Edit.add, run_openSet_append g ⟨symbol, replacement, 1.0⟩]
      rfl
  | addWeighted p =>
      rw [Edit.leaves, Request.edit, run_addWeighted, after, answer, addWeighted]
      by_cases h : validWeight p.weight = true
      · rw [if_pos h, if_pos h]
      · rw [if_neg h, if_neg h]

/-! ## Edits one after the other -/

/-- The grammar of a start word after the edits that carry out requests, with those that
    fail. -/
def edited (start : Word) (requests : List Request) : Grammar :=
  requests.foldl (fun g request => request.edit.leaves g) (ofStart start)

theorem edited_eq_ofRequests (start : Word) (requests : List Request) :
    edited start requests = ofRequests start requests := by
  simp only [edited, ofRequests, leaves_edit]

/-- A request that is refused may be left out. -/
theorem edited_of_refused (start : Word) (requests later : List Request)
    {p : Production Float32} (h : ¬validWeight p.weight = true) :
    edited start (requests ++ .addWeighted p :: later) = edited start (requests ++ later) := by
  have h_leaves : (Request.addWeighted p).edit.leaves (edited start requests)
      = edited start requests := by
    rw [Edit.leaves, Request.edit, run_addWeighted, if_neg h]
  simp only [edited, List.foldl_append, List.foldl_cons] at h_leaves ⊢
  rw [h_leaves]

/-- A set under a symbol holds the productions that were accepted for the symbol. -/
structure HoldsAccepted (symbol : Char) (accepted : List (Production Float32))
    (set : ProductionSet Float32) : Prop where
  source_eq : set.source = symbol
  productions_eq : set.productions = accepted
  some_production : set.productions ≠ []
  sources : ∀ p ∈ set.productions, p.source = symbol
  weights : ∀ p ∈ set.productions, p.weight.isFinite = true ∧ 0.0 < p.weight
  total_eq : set.total = (set.productions.map (·.weight)).foldl (· + ·) 0.0
  total_pos : 0.0 < set.total
  total_isNaN : set.total.isNaN = false

theorem holdsAccepted_of_set? {start : Word} {requests : List Request} {symbol : Char}
    {set : ProductionSet Float32} (h : (ofRequests start requests).set? symbol = some set) :
    HoldsAccepted symbol (acceptedFor requests symbol) set := by
  obtain ⟨h_source, h_some, h_wellFormed⟩ :=
    (built_ofRequests start requests).wellFormed symbol set h
  have h_total := h_wellFormed.total_pos h_some
  refine ⟨h_source, productions_of_set?_ofRequests h, h_some, ?_, ?_, h_wellFormed.total_eq,
    h_total, Binary32.isNaN_eq_false_of_lt h_total⟩
  · intro p h_p
    exact (h_wellFormed.sources p h_p).trans h_source
  · intro p h_p
    have h_weight := h_wellFormed.weights p h_p
    rwa [validWeight, Bool.and_eq_true, decide_eq_true_eq] at h_weight

/-- **Edits keep the sets in order, and those that fail change nothing.**  After any edits, failed
    ones included, exactly the symbols that productions were accepted for have sets.  The set of
    a symbol stands under that symbol and holds the accepted productions in the order they came,
    all with this symbol and with finite positive weights; its total is the sum of the weights
    from left to right, which is positive and not a NaN.  One more weighted production fails
    exactly if its weight is NaN, infinite or not above zero, with an error that names it; then
    the grammar is the same as before, and so is all that is derived later. -/
theorem sets_edited (start : Word) (requests : List Request) :
    let g := edited start requests
    (∀ symbol, g.set? symbol = none ↔ acceptedFor requests symbol = []) ∧
    (∀ symbol set, g.set? symbol = some set →
      HoldsAccepted symbol (acceptedFor requests symbol) set) ∧
    ∀ p : Production Float32,
      ((∃ e g', (Edit.addWeighted p).run g = .error e g') ↔
        p.weight.isNaN = true ∨ p.weight.isInf = true ∨ p.weight ≤ 0.0) ∧
      ∀ e g', (Edit.addWeighted p).run g = .error e g' →
        e = .invalidWeight p.source p.weight ∧ g' = g ∧
        ∀ later passes noise,
          (edited start (requests ++ .addWeighted p :: later)).derive passes noise
            = (edited start (requests ++ later)).derive passes noise := by
  intro g
  have h_g : g = ofRequests start requests := edited_eq_ofRequests start requests
  refine ⟨?_, ?_, ?_⟩
  · intro symbol
    rw [h_g]
    exact set?_ofRequests_eq_none_iff start requests symbol
  · intro symbol set h_set
    rw [h_g] at h_set
    exact holdsAccepted_of_set? h_set
  · -- The one check of the weight decides both the failure and what is left behind.
    intro p
    rw [← ProductionSet.not_validWeight_iff, run_addWeighted]
    by_cases h : validWeight p.weight = true
    · rw [if_pos h]
      refine ⟨iff_of_false ?_ (not_not_intro h), ?_⟩
      · rintro ⟨e, g', h_run⟩
        cases h_run
      · intro e g' h_run
        cases h_run
    · rw [if_neg h]
      refine ⟨iff_of_true ⟨_, _, rfl⟩ h, ?_⟩
      intro e g' h_run
      cases h_run
      refine ⟨rfl, rfl, ?_⟩
      intro later passes noise
      rw [edited_of_refused start requests later h]

/-- A set with two productions, and a weight of negative zero for a symbol that has none. -/
theorem sets_edited_negative_zero :
    let g := edited ['A', 'B'] [.add 'A' ['A', 'B'], .addWeighted ⟨'A', ['B'], 2.5⟩]
    (∀ set, g.set? 'A' = some set → set.productions = [⟨'A', ['A', 'B'], 1.0⟩, ⟨'A', ['B'], 2.5⟩]) ∧
      ((-0.0 : Float32) ≤ 0.0) ∧
      (∃ e g', (Edit.addWeighted ⟨'B', ['A'], -0.0⟩).run g = .error e g') ∧
      ∀ e g', (Edit.addWeighted ⟨'B', ['A'], -0.0⟩).run g = .error e g' → g'.set? 'B' = none := by
  intro g
  obtain ⟨h_none, h_sets, h_fails⟩ :=
    sets_edited ['A', 'B'] [.add 'A' ['A', 'B'], .addWeighted ⟨'A', ['B'], 2.5⟩]
  obtain ⟨h_iff, h_unchanged⟩ := h_fails ⟨'B', ['A'], -0.0⟩
  have h_weight : (-0.0 : Float32) ≤ 0.0 := by decide
  refine ⟨?_, h_weight, h_iff.mpr (.inr (.inr h_weight)), ?_⟩
  · intro set h_set
    rw [(h_sets 'A' set h_set).productions_eq]
    decide +kernel
  · intro e g' h_run
    rw [(h_unchanged e g' h_run).2.1]
    exact (h_none 'B').mpr (by decide +kernel)

end Verdure.Grammar
