/-
  Verdure.Proofs.Collision.Issuers

  Several indices, and which of their ids each of them accepts.

  An id carries a category and a position and nothing about the index that gave it out.  So
  an index accepts exactly the ids that it has records for (`History.mem_standing_iff`), and
  an id that comes from another index or from before a clear passes if its category and its
  position do.  Indices of different categories never mistake each other's ids.
-/
import Verdure.Proofs.Collision.History

namespace Verdure.Collision

/-! ## The ids of one index -/

namespace Index

/-- An id that is given out is the next one. -/
theorem eq_nextId_of_issue? {index : Index} {request : Request} {id : RecordId}
    {record : Bounds Float32}
    (h : (Exchange.mk request (index.serve request).2).issue? = some (id, record)) :
    id = index.nextId := by
  cases request with
  | push other => cases h; rfl
  | add other points => cases h; rfl
  | insert other point => cases h
  | clear => cases h

end Index

namespace History

/-- An index gives out ids of its own category only. -/
theorem category_of_mem_issues {category : Category} {requests : List Request} {id : RecordId}
    {record : Bounds Float32} (h : (id, record) ∈ (ofRequests category requests).issues) :
    id.category = category := by
  induction requests using List.reverseRecOn with
  | nil => cases h
  | append_singleton requests request ih =>
      rw [ofRequests_concat, issues, serve, List.filterMap_append, List.mem_append] at h
      rcases h with h_before | h_last
      · exact ih h_before
      · obtain ⟨e, h_e, h_issue⟩ := List.mem_filterMap.mp h_last
        obtain rfl := List.mem_singleton.mp h_e
        rw [Index.eq_nextId_of_issue? h_issue]
        exact (holds_ofRequests category requests).category_eq

/-- An index that was never cleared stands by all ids that it gave out. -/
theorem standing_eq_issues {history : History} (h : ∀ e ∈ history.log, e.clears = false) :
    history.standing = history.issues := by
  have h_all : history.sinceClear = history.log :=
    List.rtakeWhile_eq_self_iff.mpr fun e h_e => by rw [h e h_e]; rfl
  rw [standing, issues, h_all]

/-! ## Several indices -/

section Among

variable {ι : Type} [DecidableEq ι]

/-- The histories after a request of one of the indices. -/
def serveAt (histories : ι → History) (r : ι × Request) : ι → History :=
  Function.update histories r.1 ((histories r.1).serve r.2)

/-- The histories of new indices, of which requests are made one after the other.  Each request
    comes with the index that it is made of. -/
def among (categories : ι → Category) (requests : List (ι × Request)) : ι → History :=
  requests.foldl serveAt fun i => start (categories i)

/-- The requests that are made of one of the indices. -/
def madeOf (i : ι) (requests : List (ι × Request)) : List Request :=
  (requests.filter fun r => r.1 = i).map Prod.snd

theorem madeOf_concat (i j : ι) (request : Request) (requests : List (ι × Request)) :
    madeOf i (requests ++ [(j, request)])
      = madeOf i requests ++ if j = i then [request] else [] := by
  rw [madeOf, List.filter_append, List.map_append, ← madeOf]
  by_cases h : j = i
  · have h_keep : decide ((j, request).1 = i) = true := decide_eq_true h
    rw [if_pos h, List.filter_cons, if_pos h_keep]
    rfl
  · have h_drop : ¬decide ((j, request).1 = i) = true := fun h_eq => h (of_decide_eq_true h_eq)
    rw [if_neg h, List.filter_cons, if_neg h_drop]
    rfl

/-- Each index knows only of the requests that are made of it. -/
theorem among_apply (categories : ι → Category) (requests : List (ι × Request)) (i : ι) :
    among categories requests i = ofRequests (categories i) (madeOf i requests) := by
  induction requests using List.reverseRecOn with
  | nil => rfl
  | append_singleton requests r ih =>
      obtain ⟨j, request⟩ := r
      rw [among, List.foldl_concat, ← among, serveAt, madeOf_concat]
      by_cases h : j = i
      · subst h
        rw [Function.update_self, if_pos rfl, ofRequests_concat, ih]
      · -- A request of another index leaves this one as it was.
        rw [Function.update_of_ne (Ne.symm h), if_neg h, List.append_nil, ih]

/-- **An index accepts an id by its category and its position.**  After any requests of any
    indices, with ids from anywhere, an index looks up and anchors exactly the ids that are
    among those it gave out itself since its last clear.  But an id that was given out by any
    of the indices, at any time, is taken for one of them if the two categories agree and so
    many records are stored.  Only if an index is the one index of its category, and was never
    cleared, is every id that it accepts one of its own, and leads to the record that it was
    given out for. -/
theorem accepts_among (categories : ι → Category) (requests : List (ι × Request)) (i : ι) :
    let histories := among categories requests
    let index := (histories i).index
    (∀ id, (index.record? id).isSome = true ↔
      ∃ record, (id, record) ∈ (histories i).standing) ∧
    (∀ id point, (∃ grown, index.insert id point = .ok grown) ↔
      (index.record? id).isSome = true) ∧
    (∀ j id record, (id, record) ∈ (histories j).issues →
      ((index.record? id).isSome = true ↔
        categories j = categories i ∧ id.index < index.size)) ∧
    ((∀ j, categories j = categories i → j = i) →
      (∀ e ∈ (histories i).log, e.clears = false) →
      ∀ j id record, (id, record) ∈ (histories j).issues → (index.record? id).isSome = true →
        j = i ∧ index.record? id = some record) := by
  intro histories index
  have h_histories : ∀ j, histories j = ofRequests (categories j) (madeOf j requests) :=
    among_apply categories requests
  have h_standing : ∀ id record,
      (id, record) ∈ (histories i).standing ↔ index.record? id = some record := by
    intro id record
    simp only [index, h_histories]
    exact mem_standing_iff _ _ id record
  have h_category : index.category = categories i := by
    simp only [index, h_histories]
    exact (holds_ofRequests _ _).category_eq
  have h_issued : ∀ j id record, (id, record) ∈ (histories j).issues →
      ((index.record? id).isSome = true ↔
        categories j = categories i ∧ id.index < index.size) := by
    intro j id record h_id
    rw [h_histories] at h_id
    rw [Index.isSome_record?_iff, category_of_mem_issues h_id, h_category]
  refine ⟨fun id => ?_, fun id point => ?_, h_issued, ?_⟩
  · rw [Option.isSome_iff_exists]
    exact exists_congr fun record => (h_standing id record).symm
  · exact Index.exists_insert_iff index id point
  · intro h_only h_log j id record h_id h_accepted
    -- The category tells the issuer, and what it gave out it still stands by.
    obtain rfl := h_only j ((h_issued j id record h_id).mp h_accepted).1
    rw [← standing_eq_issues h_log] at h_id
    exact ⟨rfl, (h_standing id record).mp h_id⟩

end Among

/-- Leaves are told apart from branches, whose ids begin with the same positions. -/
theorem accepts_among_categories :
    let leaf : Bounds Float32 := .box ⟨⟨0.0, 0.0, 0.0⟩, ⟨1.0, 1.0, 1.0⟩⟩
    let branch : Bounds Float32 := .segment ⟨⟨0.0, 0.0, 0.0⟩, ⟨0.0, 1.0, 0.0⟩⟩
    let histories := among id [(.branch, .push branch), (.leaf, .push leaf)]
    (histories .leaf).index.record? ⟨.leaf, 0⟩ = some leaf ∧
      (histories .branch).index.record? ⟨.leaf, 0⟩ = none := by
  intro leaf branch histories
  have h_issued : (⟨.leaf, 0⟩, leaf) ∈ (histories .leaf).issues := List.mem_singleton_self _
  have h_branch := accepts_among id [(.branch, .push branch), (.leaf, .push leaf)] .branch
  have h_leaf := accepts_among id [(.branch, .push branch), (.leaf, .push leaf)] .leaf
  constructor
  · have h_uncleared : ∀ e ∈ (histories .leaf).log, e.clears = false := by
      intro e h_e
      obtain rfl := List.mem_singleton.mp h_e
      rfl
    exact (h_leaf.2.2.2 (fun j h => h) h_uncleared .leaf _ leaf h_issued rfl).2
  · refine Option.not_isSome_iff_eq_none.mp fun h_accepted => ?_
    exact absurd ((h_branch.2.2.1 .leaf _ leaf h_issued).mp h_accepted).1 (by decide)

/-- Of two indices of branches, each takes the first id of the other for its own, and so does an
    index with the id that it gave out first before it was cleared. -/
theorem accepts_mistaken :
    let first : Bounds Float32 := .segment ⟨⟨0.0, 0.0, 0.0⟩, ⟨0.0, 1.0, 0.0⟩⟩
    let second : Bounds Float32 := .segment ⟨⟨1.0, 0.0, 0.0⟩, ⟨1.0, 1.0, 1.0⟩⟩
    let origin : Point := ⟨0.0, 0.0, 0.0⟩
    let pair := among (fun _ : Bool => .branch) [(false, .push first), (true, .push second)]
    let cleared := ofRequests .branch [.push first, .clear, .push second]
    first ≠ second ∧
      ((⟨.branch, 0⟩, first) ∈ (pair false).issues ∧
        (pair true).index.record? ⟨.branch, 0⟩ = some second ∧
        ∃ grown, (pair true).index.insert ⟨.branch, 0⟩ origin = .ok grown) ∧
      ((⟨.branch, 0⟩, first) ∈ cleared.issues ∧
        cleared.index.record? ⟨.branch, 0⟩ = some second ∧
        ∃ grown, cleared.index.insert ⟨.branch, 0⟩ origin = .ok grown) := by
  intro first second origin pair cleared
  have h_different : first ≠ second := by decide
  exact ⟨h_different, ⟨List.mem_cons_self, rfl, _, rfl⟩, ⟨List.mem_cons_self, rfl, _, rfl⟩⟩

end History

end Verdure.Collision
