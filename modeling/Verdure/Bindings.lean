/-
  Verdure.Bindings

  Which operation each symbol stands for.
-/
import Verdure.Operation
import Std.Data.ExtTreeMap.Lemmas

namespace Verdure

/-- The operations bound to symbols, and the symbol that marks leaves for the look-ahead.
    A symbol without an operation does nothing. -/
structure Bindings where
  operations : Std.ExtTreeMap Char Operation := ∅
  leafMarker : Char := 'l'

namespace Bindings

/-- The bindings with a symbol bound to an operation, in place of an earlier one. -/
def bind (bindings : Bindings) (symbol : Char) (operation : Operation) : Bindings :=
  { bindings with operations := bindings.operations.insert symbol operation }

/-- The bindings in which `[` saves and `]` restores. -/
def bracketed : Bindings := ({} : Bindings) |>.bind '[' .push |>.bind ']' .pop

/-- The operation bound to a symbol. -/
def operation? (bindings : Bindings) (symbol : Char) : Option Operation :=
  bindings.operations[symbol]?

/-- The symbol saves the turtle. -/
def isPush (bindings : Bindings) (symbol : Char) : Bool :=
  bindings.operation? symbol = some .push

/-- The symbol restores the turtle. -/
def isPop (bindings : Bindings) (symbol : Char) : Bool :=
  bindings.operation? symbol = some .pop

/-- The number of bound symbols. -/
def size (bindings : Bindings) : Nat := bindings.operations.size

/-- The bound symbols with their operations, in ascending order of the symbols. -/
def toList (bindings : Bindings) : List (Char × Operation) := bindings.operations.toList

theorem operation?_bind (bindings : Bindings) (symbol c : Char) (operation : Operation) :
    (bindings.bind symbol operation).operation? c =
      if symbol = c then some operation else bindings.operation? c := by
  simp [bind, operation?, Std.ExtTreeMap.getElem?_insert]

end Bindings

end Verdure
