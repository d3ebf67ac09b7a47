/-
  Verdure.PointTree.Basic

  Search trees over points of space.  Each node holds a point and splits space at it
  along one axis; the axes take turns with the depth.  Points strictly below the split go
  to one side and all others to the other side.
-/
import Verdure.Space.Vec3

namespace Verdure

/-- The nodes of a point tree. -/
inductive PointNode (α β : Type) where
  | empty
  | split (point : Vec3 α) (value : β) (axis : Axis) (below above : PointNode α β)

namespace PointNode

variable {α β : Type}

/-- The stored points with their values. -/
def toList : PointNode α β → List (Vec3 α × β)
  | .empty => []
  | .split p b _ below above => (p, b) :: (below.toList ++ above.toList)

/-- The number of split nodes. -/
def count : PointNode α β → Nat
  | .empty => 0
  | .split _ _ _ below above => below.count + above.count + 1

/-- The number of split nodes on the longest way down. -/
def height : PointNode α β → Nat
  | .empty => 0
  | .split _ _ _ below above => max below.height above.height + 1

variable [Scalar α]

/-- The nodes with one more point, at the end of the way down that its coordinates choose.
    `depth` is the number of splits above. -/
@[specialize] def insertAt (point : Vec3 α) (value : β) (depth : Nat) :
    PointNode α β → PointNode α β
  | .empty => .split point value (.atDepth depth) .empty .empty
  | .split p b axis below above =>
      if point.get axis < p.get axis then
        .split p b axis (insertAt point value (depth + 1) below) above
      else .split p b axis below (insertAt point value (depth + 1) above)

end PointNode

/-- A point tree and the number of its points. -/
structure PointTree (α β : Type) where
  root : PointNode α β
  size : Nat

namespace PointTree

variable {α β : Type}

/-- The tree with no points. -/
def empty : PointTree α β := ⟨.empty, 0⟩

instance : Inhabited (PointTree α β) := ⟨empty⟩

/-- The stored points with their values. -/
def toList (tree : PointTree α β) : List (Vec3 α × β) := tree.root.toList

/-- There are no points. -/
def isEmpty (tree : PointTree α β) : Bool := tree.size == 0

variable [Scalar α]

/-- The tree with one more point. -/
@[specialize] def insert (tree : PointTree α β) (point : Vec3 α) (value : β) : PointTree α β :=
  ⟨tree.root.insertAt point value 0, tree.size + 1⟩

/-- The points in ascending order of their coordinate along an axis. -/
@[specialize] def sortAlong (axis : Axis) (points : List (Vec3 α × β)) : List (Vec3 α × β) :=
  points.mergeSort fun a b => Scalar.totalLe (a.1.get axis) (b.1.get axis)

theorem length_sortAlong (axis : Axis) (points : List (Vec3 α × β)) :
    (sortAlong axis points).length = points.length := by
  simp [sortAlong]

/-- The tree with a batch of points more, each median before the points on its two sides:
    the middle of the batch along the axis of `depth` first, then the part before it, then
    the part after it. -/
def insertMedians (tree : PointTree α β) (depth : Nat) (points : List (Vec3 α × β)) :
    PointTree α β :=
  let sorted := sortAlong (.atDepth depth) points
  let half := points.length / 2
  match _h : sorted.drop half with
  | [] => tree
  | median :: upper =>
      insertMedians
        (insertMedians (tree.insert median.1 median.2) (depth + 1) (sorted.take half))
        (depth + 1) upper
termination_by points.length
decreasing_by
  all_goals
    have hs := length_sortAlong (.atDepth depth) points
    have hd := congrArg List.length _h
    simp only [List.length_drop, List.length_take, List.length_cons] at *
    grind

/-- The tree of a batch of points, close to balanced. -/
def build (points : List (Vec3 α × β)) : PointTree α β := insertMedians empty 0 points

end PointTree

end Verdure
