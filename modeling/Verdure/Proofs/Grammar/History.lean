/-
  Verdure.Proofs.Grammar.History

  Grammars by the requests that made them.

  A grammar accepts a request, or it refuses it and stays as it is.  What it has for a symbol
  after any requests is told by the requests alone: the productions that were accepted for
  that symbol, in order, under the sum of their weights (`set?_ofRequests`).  So what a pass
  may put in the place of a symbol is told by them too, and every number of passes succeeds.
-/
import Verdure.Proofs.Grammar.Derivation

namespace Verdure.Grammar

open ProductionSet (validWeight)

/-! ## Requests -/

/-- What can be asked of a grammar. -/
inductive Request where
  /-- To start from another word. -/
  | restart (start : Word)
  /-- To register a production of weight 1. -/
  | add (symbol : Char) (replacement : Word)
  /-- To register a production with a weight of its own. -/
  | addWeighted (p : Production Float32)
  deriving DecidableEq

/-- The grammar that a request leads to, if it is accepted. -/
def answer (g : Grammar) : Request → Except PlantError Grammar
  | .restart start => .ok { g with start }
  | .add symbol replacement => .ok (g.add symbol replacement)
  | .addWeighted p => g.addWeighted p

/-- The grammar after a request, which is the same one if the request is refused. -/
def after (g : Grammar) (request : Request) : Grammar :=
  match g.answer request with
  | .ok g' => g'
  | .error _ => g

/-- The grammar of a start word after requests, one after the other. -/
def ofRequests (start : Word) (requests : List Request) : Grammar :=
  requests.foldl after (ofStart start)

/-- The production that a request registers, if it asks for one and is accepted. -/
def Request.accepted? : Request → Option (Production Float32)
  | .restart _ => none
  | .add symbol replacement => some ⟨symbol, replacement, 1.0⟩
  | .addWeighted p => if validWeight p.weight then some p else none

/-- The productions that requests register for a symbol, in order. -/
def acceptedFor (requests : List Request) (symbol : Char) : List (Production Float32) :=
  (requests.filterMap Request.accepted?).filter (·.source = symbol)

theorem ofRequests_concat (start : Word) (requests : List Request) (request : Request) :
    ofRequests start (requests ++ [request]) = (ofRequests start requests).after request :=
  List.foldl_concat ..

theorem acceptedFor_concat (requests : List Request) (request : Request) (symbol : Char) :
    acceptedFor (requests ++ [request]) symbol =
      match request.accepted? with
      | some p =>
          if p.source = symbol then acceptedFor requests symbol ++ [p]
          else acceptedFor requests symbol
      | none => acceptedFor requests symbol := by
  cases h : request.accepted? with
  | none => simp [acceptedFor, h]
  | some p => by_cases h_source : p.source = symbol <;> simp [acceptedFor, h, h_source]

/-! ## The productions of a symbol -/

/-- A request adds the production that it registers, and nothing else. -/
theorem set?_after (g : Grammar) (request : Request) (symbol : Char) :
    (g.after request).set? symbol =
      match request.accepted? with
      | some p => (g.register p).set? symbol
      | none => g.set? symbol := by
  cases request with
  | restart start => rfl
  | add symbol replacement => rfl
  | addWeighted p =>
      by_cases h : validWeight p.weight = true
      · simp [after, answer, addWeighted, Request.accepted?, h]
      · simp [after, answer, addWeighted, Request.accepted?, h]

/-- The set of a symbol with productions that were added one by one. -/
def filled (symbol : Char) (productions : List (Production Float32)) : ProductionSet Float32 :=
  ⟨symbol, productions, (productions.map (·.weight)).foldl (· + ·) 0.0⟩

theorem filled_concat (symbol : Char) (productions : List (Production Float32))
    (p : Production Float32) :
    filled symbol (productions ++ [p]) = (filled symbol productions).add p := by
  simp [filled, ProductionSet.add]

/-- **The requests tell the productions.**  After any requests a symbol has a set exactly if
    some production was accepted for it, and the set is filled with the accepted ones in
    order. -/
theorem set?_ofRequests (start : Word) (requests : List Request) (symbol : Char) :
    (ofRequests start requests).set? symbol =
      match acceptedFor requests symbol with
      | [] => none
      | p :: rest => some (filled symbol (p :: rest)) := by
  induction requests using List.reverseRecOn with
  | nil => exact set?_ofStart start symbol
  | append_singleton requests request ih =>
      -- What the new set is filled with goes on from the old one, which may be missing.
      have h_old : ((ofRequests start requests).set? symbol).getD (.empty symbol)
          = filled symbol (acceptedFor requests symbol) := by
        rw [ih]
        cases acceptedFor requests symbol <;> rfl
      rw [ofRequests_concat, set?_after, acceptedFor_concat]
      cases request.accepted? with
      | none => exact ih
      | some p =>
          dsimp only
          rw [set?_register, h_old, ← filled_concat]
          by_cases h_source : p.source = symbol
          · rw [if_pos h_source, if_pos h_source]
            cases acceptedFor requests symbol <;> rfl
          · rw [if_neg h_source, if_neg h_source]
            exact ih

theorem set?_ofRequests_eq_none_iff (start : Word) (requests : List Request) (symbol : Char) :
    (ofRequests start requests).set? symbol = none ↔ acceptedFor requests symbol = [] := by
  rw [set?_ofRequests]
  cases acceptedFor requests symbol <;> simp

theorem productions_of_set?_ofRequests {start : Word} {requests : List Request} {symbol : Char}
    {set : ProductionSet Float32} (h : (ofRequests start requests).set? symbol = some set) :
    set.productions = acceptedFor requests symbol := by
  rw [set?_ofRequests] at h
  cases h_accepted : acceptedFor requests symbol with
  | nil =>
      rw [h_accepted] at h
      cases h
  | cons p rest =>
      rw [h_accepted] at h
      obtain rfl := Option.some.inj h
      rfl

theorem built_ofRequests (start : Word) (requests : List Request) :
    (ofRequests start requests).Built := by
  induction requests using List.reverseRecOn with
  | nil => exact .ofStart start
  | append_singleton requests request ih =>
      rw [ofRequests_concat, after]
      cases request with
      | restart start => exact ih.restart start
      | add symbol replacement => exact ih.add symbol replacement
      | addWeighted p =>
          dsimp only [answer]
          split
          next g h_add => exact ih.addWeighted h_add
          next => exact ih

/-! ## What a pass may do -/

/-- What a symbol may become: the replacement of a production that was accepted for it, or
    itself if there is none. -/
theorem replaces_ofRequests_iff (start : Word) (requests : List Request) (symbol : Char)
    (word : Word) :
    (ofRequests start requests).Replaces symbol word ↔
      (acceptedFor requests symbol = [] ∧ word = [symbol]) ∨
        ∃ p ∈ acceptedFor requests symbol, word = p.replacement := by
  unfold Replaces Registers
  rw [set?_ofRequests]
  cases acceptedFor requests symbol with
  | nil => simp
  | cons p rest => simp [filled]

/-- **Derivations never fail, and only do what was registered.**  After any requests to a
    grammar, accepted or refused, every number of passes with any noise gives a word.  It is
    reached from the start word by that many passes, and a pass replaces every symbol that
    productions were accepted for by the replacement of one of them, and keeps every other
    symbol. -/
theorem derives_ofRequests (start : Word) (requests : List Request) (passes : Nat)
    (noise : Noise.Source) :
    (∃ word, (ofRequests start requests).derive passes noise = .ok word ∧
      (ofRequests start requests).Derives passes (ofRequests start requests).start word) ∧
    ∀ symbol word, (ofRequests start requests).Replaces symbol word ↔
      (acceptedFor requests symbol = [] ∧ word = [symbol]) ∨
        ∃ p ∈ acceptedFor requests symbol, word = p.replacement := by
  refine ⟨?_, replaces_ofRequests_iff start requests⟩
  obtain ⟨word, h_word⟩ := (built_ofRequests start requests).wellFormed.exists_derive passes noise
  exact ⟨word, h_word, derives_of_derive h_word⟩

/-- Two finite weights with an infinite sum, and a refused weight between them. -/
example :
    let g := ofRequests "A".toList
      [.addWeighted ⟨'A', "AB".toList, 3e38⟩, .addWeighted ⟨'A', "C".toList, 0.0⟩,
        .addWeighted ⟨'A', "BA".toList, 3e38⟩]
    (g.set? 'A').map (·.total.isFinite) = some false ∧
      g.derive 2 (.ofSeed 7) = .ok "ABB".toList := by
  decide +kernel

end Verdure.Grammar
