/-
  Verdure.Grammar.Basic

  Grammars: a word to start from, and a set of productions for some of the symbols.
-/
import Verdure.Grammar.Production
import Std.Data.ExtTreeMap.Lemmas

namespace Verdure

/-- A start word and the production sets of the symbols that have productions. -/
structure Grammar where
  start : Word := []
  sets : Std.ExtTreeMap Char (ProductionSet Float32) := ∅

namespace Grammar

/-- The grammar without productions. -/
def ofStart (start : Word) : Grammar := { start }

/-- The productions of a symbol, if it has any. -/
def set? (g : Grammar) (symbol : Char) : Option (ProductionSet Float32) := g.sets[symbol]?

/-- The grammar with one more production, in the set of its source. -/
def register (g : Grammar) (p : Production Float32) : Grammar :=
  let set := (g.set? p.source).getD (.empty p.source)
  { g with sets := g.sets.insert p.source (set.add p) }

/-- The grammar with one more production of weight 1. -/
def add (g : Grammar) (symbol : Char) (replacement : Word) : Grammar :=
  g.register ⟨symbol, replacement, 1.0⟩

/-- The grammar with one more weighted production, if the weight is valid. -/
def addWeighted (g : Grammar) (p : Production Float32) : Except PlantError Grammar :=
  if ProductionSet.validWeight p.weight then .ok (g.register p)
  else .error (.invalidWeight p.source p.weight)

@[simp] theorem start_register (g : Grammar) (p : Production Float32) :
    (g.register p).start = g.start := rfl

theorem set?_register (g : Grammar) (p : Production Float32) (c : Char) :
    (g.register p).set? c =
      if p.source = c then some (((g.set? c).getD (.empty c)).add p) else g.set? c := by
  by_cases h : p.source = c
  · subst h
    simp [register, set?]
  · simp [register, set?, Std.ExtTreeMap.getElem?_insert, h]

end Grammar

end Verdure
