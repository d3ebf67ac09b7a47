/-
  Verdure.Serial.Json

  JSON values, and how single values are read from them and written to them.
-/
import Verdure.Binary32.Width

namespace Verdure

/-- A JSON value.  A number written as an integer is kept apart from one written with a
    fraction or an exponent. -/
inductive Json where
  | null
  | bool (value : Bool)
  | int (value : Int)
  | real (value : Float)
  | str (value : String)
  | arr (items : List Json)
  | obj (fields : List (String × Json))

namespace Json

/-! ## Single values -/

/-- The truth value that is written. -/
def bool? : Json → Option Bool
  | .bool b => some b
  | _ => none

/-- The natural number that is written, if it is an integer below `bound`. -/
def nat? (bound : Nat) : Json → Option Nat
  | .int n => if 0 ≤ n ∧ n < bound then some n.toNat else none
  | _ => none

/-- The binary32 number nearest to the number that is written. -/
def float32? : Json → Option Float32
  | .int n => some (Float32.ofInt n)
  | .real x => some (Binary32.narrow x)
  | _ => none

/-- The string that is written. -/
def str? : Json → Option String
  | .str s => some s
  | _ => none

/-- The single character of the string that is written. -/
def char? : Json → Option Char
  | .str s =>
      match s.toList with
      | [c] => some c
      | _ => none
  | _ => none

/-- What is written as a value, or nothing for null. -/
def nullable? {β : Type} (read : Json → Option β) : Json → Option (Option β)
  | .null => some none
  | json => (read json).map some

/-- The items of the list that is written. -/
def list? {β : Type} (read : Json → Option β) : Json → Option (List β)
  | .arr items => items.mapM read
  | _ => none

/-- The two items of the pair that is written as a list. -/
def pair? {β γ : Type} (first : Json → Option β) (second : Json → Option γ) :
    Json → Option (β × γ)
  | .arr [a, b] => do return (← first a, ← second b)
  | _ => none

/-- A binary32 number, written by `num` if it is finite.  The infinities and NaN have no
    written form and become null. -/
def ofFinite (num : Float32 → Json) (x : Float32) : Json :=
  if x.isFinite then num x else .null

/-- A binary32 number as a JSON number. -/
def ofFloat32 : Float32 → Json := ofFinite fun x => .real (Binary32.widen x)

/-- A natural number. -/
def ofNat (n : Nat) : Json := .int n

/-- A character. -/
def ofChar (c : Char) : Json := .str c.toString

/-! ## Records -/

/-- The fields of a record with the given field names, written as an object, or as a list of
    the first so many fields in order. -/
def fields? (names : List String) : Json → Option (List (String × Json))
  | .obj fields => some fields
  | .arr items => if items.length ≤ names.length then some (names.zip items) else none
  | _ => none

/-- A field that has to be there. -/
def required {β : Type} (read : Json → Option β) (name : String)
    (fields : List (String × Json)) : Option β :=
  (fields.lookup name).bind read

/-- A field with a value for when it is not there. -/
def optional {β : Type} (read : Json → Option β) (name : String) (default : β)
    (fields : List (String × Json)) : Option β :=
  match fields.lookup name with
  | some json => read json
  | none => some default

end Json

end Verdure
