/-
  Verdure.Canopy

  A ready-made plant: a broad tree of five trunks that fan out and fork at random, with
  leaves on inner branches and at the tips.

  `D` draws a branch, `S` bends under sun and gravity, `l` and `b` draw leaves, `+` and `-`
  turn by 45 degrees, and `/` and `*` tilt by 20 degrees.
-/
import Verdure.Plant

namespace Verdure.Canopy

/-- The number of leaf variants the tree is tuned for. -/
def leafVariants : Nat := 4

/-- The grammar of the tree. -/
def grammar : Grammar :=
  Grammar.ofStart "[F][/-F][*+F][++*F][--*F]".toList
    |>.register ⟨'F', "BS++[/BFS][*BFS]++[/BFS][*BbFS]".toList, 0.5⟩
    |>.register ⟨'F', "BS++[/BFS][*BFS]".toList, 0.3⟩
    |>.register ⟨'B', "SD[l]SD".toList, 0.2⟩

/-- The bindings of the tree. -/
def bindings : Bindings :=
  Bindings.bracketed
    |>.bind 'l' (.leaf {})
    |>.bind 'b' (.leaf {})
    |>.bind 'D' (.branch {})
    |>.bind 'S' (.tick {})
    |>.bind '-' (.rotate { angle := 45.0 })
    |>.bind '+' (.rotate { angle := -45.0 })
    |>.bind '/' (.tilt { angle := -20.0 })
    |>.bind '*' (.tilt { angle := 20.0 })

/-- The tree for a seed. -/
def plant (seed : UInt64) : Plant := { grammar, bindings, noise := .ofSeed seed }

end Verdure.Canopy
