/-
  Verdure.Turtle

  The turtle that walks over a word: where it is, where it heads, and the frame it has
  turned its local coordinates to.
-/
import Verdure.Space.Mat4

namespace Verdure

/-- The state of the turtle. -/
structure Turtle where
  /-- The position, with `w = 1`. -/
  position : Vec4
  /-- The unit heading, with `w = 0`. -/
  heading : Vec4
  /-- The map from local to world coordinates: all maps applied so far, in that order. -/
  frame : Mat4
  deriving DecidableEq

namespace Turtle

/-- The turtle at the origin, heading up. -/
def start : Turtle :=
  ⟨⟨0.0, 0.0, 0.0, 1.0⟩, ⟨0.0, 1.0, 0.0, 0.0⟩, .identity⟩

/-- The turtle moved by a map: position and heading are mapped, the heading is made a unit
    vector again, and the frame takes the map in local coordinates. -/
def move (turtle : Turtle) (m : Mat4) : Turtle :=
  ⟨m * turtle.position, (m * turtle.heading).direction, turtle.frame * m⟩

/-- The world coordinates of a point given in local coordinates. -/
def toWorld (turtle : Turtle) (p : Point) : Point := turtle.frame.applyPoint p

/-- The world coordinates of the local origin. -/
def origin (turtle : Turtle) : Point := turtle.frame.wAxis.truncate

/-- The position as a point. -/
def place (turtle : Turtle) : Point := turtle.position.truncate

end Turtle

end Verdure
