/-
  Verdure.Proofs.Grammar.Homomorphism

  Grammars with at most one production for each symbol.

  A lone production is chosen without a draw, so a pass replaces every symbol by a word that
  is fixed once for all (`image`), wherever the symbol stands and whatever the noise.  A pass
  then is one map of words that keeps concatenation (`expand`), and a derivation is that map
  iterated.
-/
import Verdure.Proofs.Grammar.History
import Mathlib.Logic.Function.Iterate

namespace Verdure.Grammar

variable {g : Grammar}

/-! ## Images of symbols and words -/

/-- No symbol has more than one production. -/
def Deterministic (g : Grammar) : Prop :=
  ∀ symbol set, g.set? symbol = some set → ∃ p, set.productions = [p]

/-- What a symbol becomes if it has at most one production. -/
def image (g : Grammar) (symbol : Char) : Word :=
  match g.set? symbol with
  | none => [symbol]
  | some set => (set.productions.map (·.replacement)).headD [symbol]

/-- The word with every symbol replaced by its image. -/
def expand (g : Grammar) (word : Word) : Word := word.flatMap g.image

@[simp] theorem expand_nil (g : Grammar) : g.expand [] = [] := rfl

@[simp] theorem expand_cons (g : Grammar) (symbol : Char) (rest : Word) :
    g.expand (symbol :: rest) = g.image symbol ++ g.expand rest :=
  List.flatMap_cons

@[simp] theorem expand_append (g : Grammar) (u v : Word) :
    g.expand (u ++ v) = g.expand u ++ g.expand v :=
  List.flatMap_append

theorem iterate_expand_append (g : Grammar) (passes : Nat) (u v : Word) :
    g.expand^[passes] (u ++ v) = g.expand^[passes] u ++ g.expand^[passes] v := by
  induction passes generalizing u v with
  | zero => rfl
  | succ passes ih => simp only [Function.iterate_succ_apply, expand_append, ih]

/-! ## Derivations are iterated expansions -/

theorem Deterministic.replacement_eq (h : g.Deterministic) (noise : Noise.Source) (pass : Nat)
    (symbol : Char) (position : Nat) :
    g.replacement noise pass symbol position = .ok (g.image symbol) := by
  cases h_set : g.set? symbol with
  | none => simp only [replacement, image, h_set]
  | some set =>
      obtain ⟨p, h_lone⟩ := h symbol set h_set
      simp only [replacement, image, h_set, ProductionSet.select_of_lone h_lone]
      simp [h_lone]

theorem Deterministic.passFrom_eq (h : g.Deterministic) (noise : Noise.Source)
    (pass position : Nat) (word : Word) :
    g.passFrom noise pass position word = .ok (g.expand word) := by
  induction word generalizing position with
  | nil => rfl
  | cons symbol rest ih =>
      rw [passFrom, h.replacement_eq, ih, expand_cons]
      rfl

theorem Deterministic.deriveFrom_eq (h : g.Deterministic) (noise : Noise.Source)
    (pass passes : Nat) (word : Word) :
    g.deriveFrom noise pass passes word = .ok (g.expand^[passes] word) := by
  induction passes generalizing pass word with
  | zero => rfl
  | succ passes ih =>
      rw [deriveFrom, derivePass_eq_passFrom, h.passFrom_eq]
      exact ih (pass + 1) (g.expand word)

/-- A derivation from any start word expands it once for each pass. -/
theorem Deterministic.derive_restart (h : g.Deterministic) (start : Word) (passes : Nat)
    (noise : Noise.Source) :
    { g with start }.derive passes noise = .ok (g.expand^[passes] start) := by
  rw [derive, deriveFrom_restart]
  exact h.deriveFrom_eq noise 0 passes start

/-! ## Grammars by their requests -/

theorem deterministic_ofRequests (start : Word) {requests : List Request}
    (h : ∀ symbol, (acceptedFor requests symbol).length ≤ 1) :
    (ofRequests start requests).Deterministic := by
  intro symbol set h_set
  have h_length := h symbol
  rw [← productions_of_set?_ofRequests h_set] at h_length
  obtain ⟨-, h_some, -⟩ := (built_ofRequests start requests).wellFormed symbol set h_set
  exact List.length_eq_one_iff.mp (le_antisymm h_length (List.length_pos_iff.mpr h_some))

/-- If no symbol is the source of two accepted productions, every symbol has at most one. -/
theorem length_acceptedFor_le_one {requests : List Request}
    (h : ((requests.filterMap Request.accepted?).map (·.source)).Nodup) (symbol : Char) :
    (acceptedFor requests symbol).length ≤ 1 := by
  have h_count := List.nodup_iff_count_le_one.mp h symbol
  rw [List.count, List.countP_map, List.countP_eq_length_filter] at h_count
  exact h_count

/-- Images are told by the replacements that were accepted, without their weights. -/
theorem image_ofRequests (start : Word) (requests : List Request) (symbol : Char) :
    (ofRequests start requests).image symbol
      = ((acceptedFor requests symbol).map (·.replacement)).headD [symbol] := by
  rw [image, set?_ofRequests]
  cases acceptedFor requests symbol <;> rfl

theorem expand_ofRequests_congr {start start' : Word} {requests requests' : List Request}
    (h : ∀ symbol, (acceptedFor requests' symbol).map (·.replacement)
      = (acceptedFor requests symbol).map (·.replacement)) :
    (ofRequests start' requests').expand = (ofRequests start requests).expand := by
  have h_image : (ofRequests start' requests').image = (ofRequests start requests).image := by
    funext symbol
    rw [image_ofRequests, image_ofRequests, h]
  funext word
  rw [expand, expand, h_image]

/-- **Without alternatives a derivation is an iterated homomorphism.**  Let requests leave
    every symbol with at most one production.  Then, from any word and in any number of
    passes, a word is derived; what is derived from two words after one another is what is
    derived from the first and then what is derived from the second; passes may be stopped and
    resumed; and neither the noise nor the weights that the productions were registered with
    make a difference.  The homomorphism is `expand`: it replaces a symbol by the one
    replacement accepted for it, and keeps a symbol for which none was. -/
theorem derive_of_lone_productions (start : Word) (requests : List Request)
    (h_lone : ∀ symbol, (acceptedFor requests symbol).length ≤ 1) :
    (∀ u v passes noise, ∃ first second,
      { ofRequests start requests with start := u }.derive passes noise = .ok first ∧
      { ofRequests start requests with start := v }.derive passes noise = .ok second ∧
      { ofRequests start requests with start := u ++ v }.derive passes noise
        = .ok (first ++ second)) ∧
    (∀ u passes more noise, ∃ middle,
      { ofRequests start requests with start := u }.derive passes noise = .ok middle ∧
      { ofRequests start requests with start := u }.derive (passes + more) noise
        = { ofRequests start requests with start := middle }.derive more noise) ∧
    (∀ start' requests', (∀ symbol, (acceptedFor requests' symbol).map (·.replacement)
        = (acceptedFor requests symbol).map (·.replacement)) →
      ∀ u passes noise noise',
        { ofRequests start' requests' with start := u }.derive passes noise'
          = { ofRequests start requests with start := u }.derive passes noise) ∧
    (∀ u passes noise, { ofRequests start requests with start := u }.derive passes noise
      = .ok ((ofRequests start requests).expand^[passes] u)) ∧
    (∀ symbol, (ofRequests start requests).expand [symbol]
      = ((acceptedFor requests symbol).map (·.replacement)).headD [symbol]) := by
  have h_det := deterministic_ofRequests start h_lone
  -- The laws are those of `expand` iterated, which is what a derivation then is.
  refine ⟨?_, ?_, ?_, h_det.derive_restart, ?_⟩
  · intro u v passes noise
    refine ⟨_, _, h_det.derive_restart u passes noise, h_det.derive_restart v passes noise, ?_⟩
    rw [h_det.derive_restart, iterate_expand_append]
  · intro u passes more noise
    refine ⟨_, h_det.derive_restart u passes noise, ?_⟩
    rw [h_det.derive_restart, h_det.derive_restart, Nat.add_comm, Function.iterate_add_apply]
  · intro start' requests' h_same u passes noise noise'
    have h_lone' : ∀ symbol, (acceptedFor requests' symbol).length ≤ 1 := by
      intro symbol
      rw [← List.length_map (·.replacement), h_same, List.length_map]
      exact h_lone symbol
    rw [h_det.derive_restart, (deterministic_ofRequests start' h_lone').derive_restart,
      expand_ofRequests_congr h_same]
  · intro symbol
    rw [expand_cons, expand_nil, List.append_nil, image_ofRequests]

/-- A symbol that grows, one that is erased, and a refused second production. -/
theorem derive_of_lone_productions_erasing :
    let requests : List Request :=
      [.add 'A' ['A', 'B', 'A'], .addWeighted ⟨'B', [], 2.5⟩, .addWeighted ⟨'A', ['C'], 0.0⟩]
    let requests' : List Request :=
      [.addWeighted ⟨'B', [], 7.0⟩, .addWeighted ⟨'A', ['A', 'B', 'A'], 0.5⟩]
    (∀ symbol, (acceptedFor requests symbol).length ≤ 1) ∧
    (∀ symbol, (acceptedFor requests' symbol).map (·.replacement)
      = (acceptedFor requests symbol).map (·.replacement)) ∧
    (∃ first second,
      { ofRequests [] requests with start := ['A', 'B'] }.derive 2 (.ofSeed 7) = .ok first ∧
      { ofRequests [] requests with start := ['A'] }.derive 2 (.ofSeed 7) = .ok second ∧
      { ofRequests [] requests with start := ['A', 'B', 'A'] }.derive 2 (.ofSeed 7)
        = .ok (first ++ second)) ∧
    { ofRequests [] requests' with start := ['A', 'B', 'A'] }.derive 2 (.ofSeed 9)
      = { ofRequests [] requests with start := ['A', 'B', 'A'] }.derive 2 (.ofSeed 7) := by
  intro requests requests'
  have h_accepted : requests.filterMap Request.accepted?
      = [⟨'A', ['A', 'B', 'A'], 1.0⟩, ⟨'B', [], 2.5⟩] := by decide +kernel
  have h_accepted' : requests'.filterMap Request.accepted?
      = [⟨'B', [], 7.0⟩, ⟨'A', ['A', 'B', 'A'], 0.5⟩] := by decide +kernel
  have h_lone : ∀ symbol, (acceptedFor requests symbol).length ≤ 1 :=
    length_acceptedFor_le_one (by rw [h_accepted]; simp)
  have h_same : ∀ symbol, (acceptedFor requests' symbol).map (·.replacement)
      = (acceptedFor requests symbol).map (·.replacement) := by
    intro symbol
    rw [acceptedFor, acceptedFor, h_accepted, h_accepted']
    by_cases h_a : symbol = 'A'
    · subst h_a
      simp
    · by_cases h_b : symbol = 'B'
      · subst h_b
        simp
      · simp [Ne.symm h_a, Ne.symm h_b]
  obtain ⟨h_append, -, h_weights, -⟩ := derive_of_lone_productions [] requests h_lone
  exact ⟨h_lone, h_same, h_append ['A', 'B'] ['A'] 2 (.ofSeed 7),
    h_weights [] requests' h_same ['A', 'B', 'A'] 2 (.ofSeed 7) (.ofSeed 9)⟩

end Verdure.Grammar
