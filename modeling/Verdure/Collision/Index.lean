/-
  Verdure.Collision.Index

  Indices of placed instances: the bounds of each, kept under an id, and anchor points in
  a tree that finds the instances near a place.  The tree only narrows the choice down;
  whether two instances collide is decided on their bounds.
-/
import Verdure.Geometry.Bounds
import Verdure.PointTree.Nearest

namespace Verdure.Collision

/-- What kind of instance an index holds. -/
inductive Category where
  | branch
  | leaf
  deriving DecidableEq, Repr

/-- The name of a category. -/
def Category.name : Category → String
  | .branch => "Branch"
  | .leaf => "Leaf"

/-- The identity of a stored record: the category of its index and its place in it. -/
structure RecordId where
  category : Category
  index : Nat
  deriving DecidableEq, Repr

/-- The written form of an id. -/
def RecordId.toString (id : RecordId) : String := s!"{id.category.name}#{id.index}"

/-- Why an id is not accepted. -/
inductive Error where
  /-- The id belongs to an index of another category. -/
  | foreignRecord (id : RecordId) (expected : Category)
  /-- No record is stored under the id. -/
  | unknownRecord (id : RecordId)
  deriving DecidableEq, Repr

/-- The text of an error. -/
def Error.message : Error → String
  | .foreignRecord id expected =>
      s!"record {id.toString} does not belong to the {expected.name} index"
  | .unknownRecord id => s!"record {id.toString} was never stored"

/-- The records of one category, in the order they were stored, and their anchors. -/
structure Index where
  category : Category
  records : Array (Bounds Float32)
  anchors : PointTree Float32 RecordId

namespace Index

/-- The index with no records. -/
def empty (category : Category) : Index := ⟨category, #[], .empty⟩

/-- The number of records. -/
def size (index : Index) : Nat := index.records.size

/-- There are no records. -/
def isEmpty (index : Index) : Bool := index.records.isEmpty

/-- The number of anchors. -/
def anchorCount (index : Index) : Nat := index.anchors.size

/-- The id that the next record gets. -/
def nextId (index : Index) : RecordId := ⟨index.category, index.size⟩

/-- Stores a record without an anchor. -/
def push (index : Index) (record : Bounds Float32) : Index × RecordId :=
  ({ index with records := index.records.push record }, index.nextId)

/-- Anchors the record of an id at a point. -/
def insert (index : Index) (id : RecordId) (point : Point) : Except Error Index :=
  if id.category ≠ index.category then .error (.foreignRecord id index.category)
  else if index.size ≤ id.index then .error (.unknownRecord id)
  else .ok { index with anchors := index.anchors.insert point id }

/-- Stores a record and anchors it at each of the points. -/
def add (index : Index) (record : Bounds Float32) (points : List Point) : Index × RecordId :=
  let id := index.nextId
  let anchors := points.foldl (fun tree point => tree.insert point id) index.anchors
  ({ index with records := index.records.push record, anchors }, id)

/-- The record of an id, if the id is of the category of the index and was given out. -/
def record? (index : Index) (id : RecordId) : Option (Bounds Float32) :=
  if id.category = index.category then index.records[id.index]? else none

/-! ## Searches

`nearest` and `findCollision` answer as long as the heap of the query can be given its room
(`PointTree.HasRoom`); `closest` and `collision?` are what they answer then. -/

/-- What a query makes of the anchors that it finds. -/
def sightings (found : List (Neighbour Float32 RecordId)) : List (RecordId × Float32) :=
  found.map fun n => (n.value, n.distanceSquared)

/-- The ids of the anchors nearest to a point with the squares of their distances, nearest
    first, `k` of them if there are so many. -/
def closest (index : Index) (point : Point) (k : Nat) : List (RecordId × Float32) :=
  sightings (index.anchors.closest point k)

/-- The answer to a query for the `k` nearest anchors. -/
def nearest (index : Index) (point : Point) (k : Nat) :
    Except NoRoom (List (RecordId × Float32)) :=
  (index.anchors.kNearest point k).map sightings

theorem nearest_eq (index : Index) (point : Point) (k : Nat) :
    index.nearest point k
      = if PointTree.HasRoom k then .ok (index.closest point k)
        else .error .capacityOverflow := by
  rw [nearest, PointTree.kNearest_eq]
  split <;> rfl

/-- What a search for a collision makes of one near anchor. -/
def hit? (index : Index) (candidate : Bounds Float32) (epsilon : Float32)
    (found : RecordId × Float32) : Option RecordId :=
  match index.record? found.1 with
  | some existing => if candidate.overlaps existing epsilon then some found.1 else none
  | none => none

/-- The first id among the `k` anchors nearest to `query` whose record collides with
    `candidate`. -/
def collision? (index : Index) (candidate : Bounds Float32) (query : Point) (k : Nat)
    (epsilon : Float32) : Option RecordId :=
  (index.closest query k).findSome? (index.hit? candidate epsilon)

/-- The answer to a search for a collision among the `k` anchors nearest to `query`. -/
def findCollision (index : Index) (candidate : Bounds Float32) (query : Point) (k : Nat)
    (epsilon : Float32) : Except NoRoom (Option RecordId) :=
  (index.nearest query k).map fun found => found.findSome? (index.hit? candidate epsilon)

theorem findCollision_eq (index : Index) (candidate : Bounds Float32) (query : Point) (k : Nat)
    (epsilon : Float32) :
    index.findCollision candidate query k epsilon
      = if PointTree.HasRoom k then .ok (index.collision? candidate query k epsilon)
        else .error .capacityOverflow := by
  rw [findCollision, nearest_eq]
  split <;> rfl

/-- The index without its records and anchors. -/
def clear (index : Index) : Index := empty index.category

end Index

end Verdure.Collision
