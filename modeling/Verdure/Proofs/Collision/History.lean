/-
  Verdure.Proofs.Collision.History

  Indices by the requests that made them.

  The records and the anchors of an index are two stores, and the id that comes with a
  request may come from anywhere: from this index, from another one, or from before the last
  clear.  A `History` writes down every request with its answer.  What the index holds is
  told by the part since the last clear (`Index.Holds`): the ids given out there are those of
  the stored records, in order, and the anchors accepted there are those in the tree.  So
  the two stores stay in step, and a search can be told from the requests.
-/
import Verdure.Proofs.Collision.Growth
import Mathlib.Data.List.DropRight

namespace Verdure.Collision

/-! ## Requests -/

/-- What can be asked of an index that may change it. -/
inductive Request where
  /-- To store a record without an anchor. -/
  | push (record : Bounds Float32)
  /-- To store a record and anchor it. -/
  | add (record : Bounds Float32) (points : List Point)
  /-- To anchor the record of an id, wherever the id is from. -/
  | insert (id : RecordId) (point : Point)
  /-- To forget all records and anchors. -/
  | clear

/-- What an index answers to a request. -/
inductive Answer where
  /-- A record is stored, and this is its id. -/
  | issued (id : RecordId)
  /-- The record of the id is anchored. -/
  | anchored
  /-- The id is not accepted. -/
  | refused (error : Error)
  | cleared
  deriving DecidableEq

/-- The index after a request, and its answer. -/
def Index.serve (index : Index) : Request → Index × Answer
  | .push record => ((index.push record).1, .issued (index.push record).2)
  | .add record points => ((index.add record points).1, .issued (index.add record points).2)
  | .insert id point =>
      match index.insert id point with
      | .ok grown => (grown, .anchored)
      | .error error => (index, .refused error)
  | .clear => (index.clear, .cleared)

/-- A request and the answer it got. -/
structure Exchange where
  request : Request
  answer : Answer

namespace Exchange

/-- Everything was forgotten. -/
def clears (e : Exchange) : Bool :=
  match e.request with
  | .clear => true
  | _ => false

/-- The id that was given out, and the record under it. -/
def issue? : Exchange → Option (RecordId × Bounds Float32)
  | ⟨.push record, .issued id⟩ => some (id, record)
  | ⟨.add record _, .issued id⟩ => some (id, record)
  | _ => none

/-- The anchors that were put into the tree: those that came with a record, or the one of an
    insert that was accepted. -/
def anchors : Exchange → List (Point × RecordId)
  | ⟨.add _ points, .issued id⟩ => points.map fun point => (point, id)
  | ⟨.insert id point, .anchored⟩ => [(point, id)]
  | _ => []

end Exchange

/-- An index, and the exchanges with it from when it was new. -/
structure History where
  index : Index
  log : List Exchange

namespace History

/-- The history of an index that nothing was asked of yet. -/
def start (category : Category) : History := ⟨.empty category, []⟩

/-- One more request. -/
def serve (history : History) (request : Request) : History :=
  ⟨(history.index.serve request).1,
    history.log ++ [⟨request, (history.index.serve request).2⟩]⟩

/-- The history of a new index that requests are made of, one after the other. -/
def ofRequests (category : Category) (requests : List Request) : History :=
  requests.foldl serve (start category)

/-- The exchanges since the last clear, or all if there was none. -/
def sinceClear (history : History) : List Exchange := history.log.rtakeWhile fun e => !e.clears

/-- The ids that were ever given out, with the records they were given out for. -/
def issues (history : History) : List (RecordId × Bounds Float32) :=
  history.log.filterMap Exchange.issue?

/-- The ids that were given out since the last clear, with their records. -/
def standing (history : History) : List (RecordId × Bounds Float32) :=
  history.sinceClear.filterMap Exchange.issue?

theorem ofRequests_concat (category : Category) (requests : List Request) (request : Request) :
    ofRequests category (requests ++ [request]) = (ofRequests category requests).serve request :=
  List.foldl_concat ..

theorem sinceClear_serve (history : History) (request : Request) :
    (history.serve request).sinceClear =
      if (Exchange.mk request (history.index.serve request).2).clears then []
      else history.sinceClear ++ [⟨request, (history.index.serve request).2⟩] := by
  rw [sinceClear, serve, List.rtakeWhile_concat]
  cases (Exchange.mk request (history.index.serve request).2).clears <;> rfl

end History

/-! ## Records under their ids -/

namespace Index

/-- The stored records under their ids, in order. -/
def entries (index : Index) : List (RecordId × Bounds Float32) :=
  index.records.toList.zipIdx.map fun (record, i) => (⟨index.category, i⟩, record)

theorem mem_entries_iff {index : Index} {id : RecordId} {record : Bounds Float32} :
    (id, record) ∈ index.entries ↔ index.record? id = some record := by
  obtain ⟨category, i⟩ := id
  rw [entries, List.mem_map, record?, Option.ite_none_right_eq_some]
  constructor
  · rintro ⟨⟨other, n⟩, h_mem, h_eq⟩
    rw [List.mem_zipIdx_iff_getElem?, Array.getElem?_toList] at h_mem
    cases h_eq
    exact ⟨rfl, h_mem⟩
  · rintro ⟨rfl, h_record⟩
    refine ⟨(record, i), ?_, rfl⟩
    rw [List.mem_zipIdx_iff_getElem?, Array.getElem?_toList]
    exact h_record

/-- The ids count the records. -/
theorem ids_entries (index : Index) :
    index.entries.map Prod.fst
      = (List.range index.size).map fun i => (⟨index.category, i⟩ : RecordId) := by
  have h_places := List.zipIdx_map_snd 0 index.records.toList
  rw [Array.length_toList, ← List.range_eq_range'] at h_places
  rw [size, ← h_places, entries, List.map_map, List.map_map]
  rfl

/-- No id stands for two records. -/
theorem nodup_ids_entries (index : Index) : (index.entries.map Prod.fst).Nodup := by
  rw [ids_entries]
  exact List.nodup_range.map fun i j h => congrArg RecordId.index h

theorem entries_add (index : Index) (record : Bounds Float32) (points : List Point) :
    (index.add record points).1.entries = index.entries ++ [(index.nextId, record)] := by
  show ((index.records.push record).toList.zipIdx.map _) = _
  rw [Array.toList_push, List.zipIdx_append, List.map_append, List.zipIdx_singleton,
    Nat.zero_add, Array.length_toList]
  rfl

/-- One more anchor is accepted if a record is stored under its id, and refused if not. -/
theorem insert_cases (index : Index) (id : RecordId) (point : Point) :
    (index.record? id).isSome = true ∧
        index.insert id point = .ok { index with anchors := index.anchors.insert point id } ∨
      index.record? id = none ∧ ∃ error, index.insert id point = .error error := by
  by_cases h : (index.record? id).isSome = true
  · obtain ⟨h_category, h_index⟩ := (isSome_record?_iff index id).mp h
    refine .inl ⟨h, ?_⟩
    rw [Index.insert, if_neg (not_not_intro h_category), if_neg (Nat.not_le_of_lt h_index)]
  · refine .inr ⟨Option.not_isSome_iff_eq_none.mp h, ?_⟩
    rw [Index.insert]
    by_cases h_category : id.category = index.category
    · have h_index : index.size ≤ id.index :=
        Nat.not_lt.mp fun h_lt => h ((isSome_record?_iff index id).mpr ⟨h_category, h_lt⟩)
      rw [if_neg (not_not_intro h_category), if_pos h_index]
      exact ⟨_, rfl⟩
    · rw [if_pos h_category]
      exact ⟨_, rfl⟩

theorem exists_insert_iff (index : Index) (id : RecordId) (point : Point) :
    (∃ grown, index.insert id point = .ok grown) ↔ (index.record? id).isSome = true := by
  rcases index.insert_cases id point with ⟨h_record, h_insert⟩ | ⟨h_record, error, h_insert⟩
  · simp only [h_insert, h_record, Except.ok.injEq, exists_eq']
  · simp only [h_insert, h_record, Option.isSome_none, Bool.false_eq_true, reduceCtorEq,
      exists_false]

/-- A request stores one record at most. -/
theorem size_serve_le (index : Index) (request : Request) :
    (index.serve request).1.size ≤ index.size + 1 := by
  cases request with
  | push record => exact (Array.size_push _).le
  | add record points => exact (size_add index record points).le
  | insert id point =>
      rcases index.insert_cases id point with ⟨-, h_insert⟩ | ⟨-, error, h_insert⟩ <;>
        simp only [Index.serve, h_insert]
      · exact Nat.le_succ _
      · exact Nat.le_succ _
  | clear => exact Nat.zero_le _

/-! ## What an index holds -/

/-- The index of a category holds what exchanges put into it. -/
structure Holds (index : Index) (category : Category) (exchanges : List Exchange) : Prop where
  category_eq : index.category = category
  /-- The ids that were given out are those of the records, in order. -/
  issues : exchanges.filterMap Exchange.issue? = index.entries
  /-- The tree has the anchors that were accepted. -/
  anchors : index.anchors.Represents (exchanges.flatMap Exchange.anchors)
  /-- Every anchor is one of a stored record. -/
  sound : index.Sound

theorem holds_empty (category : Category) : (empty category).Holds category [] :=
  ⟨rfl, rfl, PointTree.represents_empty, sound_empty category⟩

section Holds

variable {index : Index} {category : Category} {exchanges : List Exchange}

theorem Holds.add (h : index.Holds category exchanges) (record : Bounds Float32)
    (points : List Point) {e : Exchange} (h_issue : e.issue? = some (index.nextId, record))
    (h_anchors : e.anchors = points.map fun point => (point, index.nextId)) :
    (index.add record points).1.Holds category (exchanges ++ [e]) := by
  refine ⟨h.category_eq, ?_, ?_, ((Grown.refl index).add record points).sound h.sound⟩
  · rw [List.filterMap_append, h.issues, entries_add, List.filterMap_cons, h_issue]
    rfl
  · rw [List.flatMap_append, List.flatMap_singleton, h_anchors]
    refine (h.anchors.foldl_insert points index.nextId).perm ?_
    exact ((List.reverse_perm _).append_right _).trans List.perm_append_comm

theorem Holds.insert (h : index.Holds category exchanges) (id : RecordId) (point : Point) :
    (index.serve (.insert id point)).1.Holds category
      (exchanges ++ [⟨.insert id point, (index.serve (.insert id point)).2⟩]) := by
  rcases index.insert_cases id point with ⟨-, h_insert⟩ | ⟨-, error, h_insert⟩
  · simp only [Index.serve, h_insert]
    refine ⟨h.category_eq, ?_, ?_, h.sound.insert h_insert⟩
    · rw [List.filterMap_append, h.issues]
      exact List.append_nil _
    · rw [List.flatMap_append, List.flatMap_singleton]
      exact (h.anchors.insert point id).perm (List.perm_append_singleton (point, id) _).symm
  · -- A refusal gives out no id and puts no anchor into the tree.
    simp only [Index.serve, h_insert]
    refine ⟨h.category_eq, ?_, ?_, h.sound⟩
    · rw [List.filterMap_append, h.issues]
      exact List.append_nil _
    · rw [List.flatMap_append, List.flatMap_singleton]
      exact h.anchors.perm (List.Perm.of_eq (List.append_nil _).symm)

/-- A request adds an exchange to what the index holds, or leaves nothing of it. -/
theorem Holds.serve (h : index.Holds category exchanges) (request : Request) :
    (index.serve request).1.Holds category
      (if (Exchange.mk request (index.serve request).2).clears then []
        else exchanges ++ [⟨request, (index.serve request).2⟩]) := by
  cases request with
  | push record => exact h.add record [] rfl rfl
  | add record points => exact h.add record points rfl rfl
  | insert id point => exact h.insert id point
  | clear =>
      -- Nothing is left but the category.
      show (empty index.category).Holds category []
      rw [h.category_eq]
      exact holds_empty category

end Holds

end Index

namespace History

/-- **The exchanges since the last clear tell what an index holds.** -/
theorem holds_ofRequests (category : Category) (requests : List Request) :
    (ofRequests category requests).index.Holds category
      (ofRequests category requests).sinceClear := by
  induction requests using List.reverseRecOn with
  | nil => exact Index.holds_empty category
  | append_singleton requests request ih =>
      rw [ofRequests_concat, sinceClear_serve]
      exact ih.serve request

theorem mem_standing_iff (category : Category) (requests : List Request) (id : RecordId)
    (record : Bounds Float32) :
    (id, record) ∈ (ofRequests category requests).standing ↔
      (ofRequests category requests).index.record? id = some record := by
  rw [standing, (holds_ofRequests category requests).issues, Index.mem_entries_iff]

/-- **The two stores of an index stay in step.**  After any requests, with ids from anywhere,
    every anchor is one of a stored record, so a search never finds an id without one.  There
    are as many anchors as came with records or were accepted since the last clear, a request
    that is refused changes nothing, and the ids given out since the last clear are all
    different and stand for the very records they were given out for. -/
theorem stores_in_step (category : Category) (requests : List Request) :
    let history := ofRequests category requests
    (∀ anchor ∈ history.index.anchors.toList, anchor.2.category = category ∧
      ∃ record, history.index.record? anchor.2 = some record) ∧
    (∀ query k, ∀ found ∈ history.index.closest query k,
      ∃ record, history.index.record? found.1 = some record) ∧
    history.index.anchorCount = (history.sinceClear.flatMap Exchange.anchors).length ∧
    (∀ id point error, history.index.insert id point = .error error →
      (history.serve (.insert id point)).index = history.index) ∧
    (history.standing.map Prod.fst).Nodup ∧
    ∀ id record, (id, record) ∈ history.standing ↔ history.index.record? id = some record := by
  intro history
  have h_holds : history.index.Holds category history.sinceClear :=
    holds_ofRequests category requests
  have h_anchor : ∀ anchor ∈ history.index.anchors.toList,
      ∃ record, history.index.record? anchor.2 = some record :=
    fun anchor h_anchor => Option.isSome_iff_exists.mp (h_holds.sound anchor h_anchor)
  refine ⟨fun anchor h => ?_, fun query k found h_found => ?_, h_holds.anchors.size, ?_, ?_,
    mem_standing_iff category requests⟩
  · have h_record := (Index.isSome_record?_iff _ _).mp (h_holds.sound anchor h)
    exact ⟨h_record.1.trans h_holds.category_eq, h_anchor anchor h⟩
  · -- A query finds only what is in the tree.
    obtain ⟨n, h_n, rfl⟩ := List.mem_map.mp h_found
    exact h_anchor _ (PointTree.mem_stored_of_mem_closest h_n)
  · intro id point error h_error
    show (history.index.serve (.insert id point)).1 = history.index
    simp only [Index.serve, h_error]
  · -- What stands is the record store itself, numbered by position.
    rw [standing, h_holds.issues]
    exact history.index.nodup_ids_entries

/-! ## Searches -/

/-- There are no more records than requests were made. -/
theorem size_ofRequests_le (category : Category) (requests : List Request) :
    (ofRequests category requests).index.size ≤ requests.length := by
  induction requests using List.reverseRecOn with
  | nil => exact Nat.le_refl 0
  | append_singleton requests request ih =>
      rw [ofRequests_concat, List.length_append, List.length_singleton]
      exact (Index.size_serve_le _ request).trans (Nat.succ_le_succ ih)

/-- **A search is a scan of what it looks at.**  Whatever was asked of an index before, a search
    is answered if the heap of its query can be given room, and refused if not.  It answers
    with the first near anchor whose record collides, and with none only if there is no such
    anchor.  If it looks at all anchors, it meets each of those that were accepted once, and
    finds a collision exactly if a scan of the anchored records does.  The coordinates may be
    anything.  Positions of records stay below the number of requests. -/
theorem findCollision_ofRequests (category : Category) (requests : List Request)
    (candidate : Bounds Float32) (query : Point) (k : Nat) (epsilon : Float32) :
    let history := ofRequests category requests
    let index := history.index
    let anchored := history.sinceClear.flatMap Exchange.anchors
    ∃ near hit,
      index.nearest query k
        = (if PointTree.HasRoom k then .ok near else .error .capacityOverflow) ∧
      index.findCollision candidate query k epsilon
        = (if PointTree.HasRoom k then .ok hit else .error .capacityOverflow) ∧
      (∀ id, hit = some id ↔
        ∃ before distance after, near = before ++ (id, distance) :: after ∧
          index.Collides candidate epsilon id ∧
          ∀ found ∈ before, ¬index.Collides candidate epsilon found.1) ∧
      (hit = none ↔ ∀ found ∈ near, ¬index.Collides candidate epsilon found.1) ∧
      (index.anchorCount ≤ k →
        near.Perm (anchored.map fun anchor => (anchor.2, anchor.1.distanceSquared query)) ∧
        (hit.isSome = true ↔ index.ScanHits anchored candidate epsilon)) ∧
      index.size ≤ requests.length := by
  intro history index anchored
  have h_represents : index.anchors.Represents anchored :=
    (holds_ofRequests category requests).anchors
  refine ⟨index.closest query k, index.collision? candidate query k epsilon,
    Index.nearest_eq index query k, Index.findCollision_eq index candidate query k epsilon,
    fun id => Index.collision?_eq_some_iff, Index.collision?_eq_none_iff, ?_,
    size_ofRequests_le category requests⟩
  intro h_k
  have h_all : anchored.length ≤ k := by
    have h_size : index.anchorCount = anchored.length := h_represents.size
    omega
  refine ⟨Index.closest_perm h_represents h_all query, ?_⟩
  rw [← Option.ne_none_iff_isSome, ne_eq, Index.collision?_eq_none_iff_scan h_represents h_all,
    not_not]

/-- A box with an anchor that is nowhere is found by a search from nowhere. -/
theorem findCollision_ofRequests_nan :
    let box : Bounds Float32 := .box ⟨⟨0.0, 0.0, 0.0⟩, ⟨1.0, 1.0, 1.0⟩⟩
    let nowhere : Point := ⟨0.0 / 0.0, 0.0, 1.0⟩
    let index := (ofRequests .leaf [.push box, .add box [nowhere]]).index
    index.anchorCount ≤ 1 ∧ ∃ id, index.findCollision box nowhere 1 0.0 = .ok (some id) := by
  intro box nowhere index
  have h_count : index.anchorCount ≤ 1 := by decide
  have h_room : PointTree.HasRoom 1 := by decide
  obtain ⟨near, hit, -, h_answer, -, -, h_scan, -⟩ :=
    findCollision_ofRequests .leaf [.push box, .add box [nowhere]] box nowhere 1 0.0
  have h_hits : index.ScanHits _ box 0.0 :=
    ⟨1, box, rfl, ⟨nowhere, List.mem_singleton_self _⟩, by decide +kernel⟩
  obtain ⟨id, rfl⟩ := Option.isSome_iff_exists.mp ((h_scan h_count).2.mpr h_hits)
  rw [if_pos h_room] at h_answer
  exact ⟨h_count, id, h_answer⟩

/-- A search that would look at `2 ^ 62` anchors is refused, though there is but one, and its
    record collides. -/
theorem findCollision_without_room :
    let box : Bounds Float32 := .box ⟨⟨0.0, 0.0, 0.0⟩, ⟨1.0, 1.0, 1.0⟩⟩
    let corner : Point := ⟨0.0, 0.0, 0.0⟩
    let index := (ofRequests .branch [.add box [corner]]).index
    index.anchorCount ≤ 2 ^ 62 ∧ index.ScanHits [(corner, ⟨.branch, 0⟩)] box 0.0 ∧
      ∀ hit, index.findCollision box corner (2 ^ 62) 0.0 ≠ .ok hit := by
  intro box corner index
  have h_count : index.anchorCount = 1 := rfl
  have h_hits : index.ScanHits [(corner, ⟨.branch, 0⟩)] box 0.0 :=
    ⟨0, box, rfl, ⟨corner, List.mem_singleton_self _⟩, by decide +kernel⟩
  refine ⟨h_count.trans_le (by decide), h_hits, fun hit h_answer => ?_⟩
  rw [Index.findCollision_eq, if_neg (by decide)] at h_answer
  cases h_answer

end History

end Verdure.Collision
