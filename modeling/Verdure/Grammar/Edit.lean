/-
  Verdure.Grammar.Edit

  Grammars that are edited in place.

  A registration goes in steps: its weight is checked, a set is opened for its symbol if there is
  none, and the production is put at the end of that set.  A failure ends an edit where it
  occurs, and what was done before it stays.
-/
import Verdure.Grammar.Basic

namespace Verdure.Grammar

/-- A change of a grammar in place, which may fail on the way. -/
abbrev Edit := EStateM PlantError Grammar Unit

namespace Edit

/-- Fails unless the weight of the production is valid. -/
def checkWeight (p : Production Float32) : Edit :=
  if ProductionSet.validWeight p.weight then pure ()
  else throw (.invalidWeight p.source p.weight)

/-- Opens an empty set for a symbol that has no set. -/
def openSet (symbol : Char) : Edit :=
  modify fun g => { g with sets := g.sets.insertIfNew symbol (.empty symbol) }

/-- Puts a production at the end of the set that is open for its source. -/
def append (p : Production Float32) : Edit :=
  modify fun g => { g with sets := g.sets.modify p.source (·.add p) }

/-- Starts from another word. -/
def restart (start : Word) : Edit := modify fun g => { g with start }

/-- Registers a production of weight 1. -/
def add (symbol : Char) (replacement : Word) : Edit := do
  openSet symbol
  append ⟨symbol, replacement, 1.0⟩

/-- Registers a weighted production. -/
def addWeighted (p : Production Float32) : Edit := do
  checkWeight p
  openSet p.source
  append p

/-- The grammar that an edit leaves, whether it fails or not. -/
def leaves (edit : Edit) (g : Grammar) : Grammar :=
  match edit.run g with
  | .ok _ g' => g'
  | .error _ g' => g'

end Edit

end Verdure.Grammar
