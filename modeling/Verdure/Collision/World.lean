/-
  Verdure.Collision.World

  The placed instances of one plant: its branches and its leaves.
-/
import Verdure.Collision.Index

namespace Verdure.Collision

/-- An index of branches and an index of leaves. -/
structure World where
  branches : Index
  leaves : Index

namespace World

/-- The world in which nothing is placed. -/
def empty : World := ⟨.empty .branch, .empty .leaf⟩

/-- The world with both indices cleared. -/
def reset (world : World) : World := ⟨world.branches.clear, world.leaves.clear⟩

end World

end Verdure.Collision
