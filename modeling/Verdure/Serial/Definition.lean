/-
  Verdure.Serial.Definition

  The written form of plant definitions.  Fields that are not written have their defaults,
  and fields with other names are passed over.
-/
import Verdure.Definition
import Verdure.Serial.Operation

namespace Verdure

/-- A written word. -/
def Json.ofWord (word : Word) : Json := .str (String.ofList word)

/-- The word that is written. -/
def Json.word? (json : Json) : Option Word := json.str?.map String.toList

namespace Production

/-- The names of the fields. -/
def names : List String := ["source", "replacement", "weight"]

/-- The written production. -/
def encode (num : Float32 → Json) (p : Production Float32) : Json :=
  .obj [("source", .ofChar p.source), ("replacement", .ofWord p.replacement),
    ("weight", num p.weight)]

/-- The production that is written, with weight 1 if there is no weight. -/
def decode (json : Json) : Option (Production Float32) := do
  let fields ← json.fields? names
  return {
    source := ← Json.required Json.char? "source" fields
    replacement := ← Json.required Json.word? "replacement" fields
    weight := ← Json.optional Json.float32? "weight" 1.0 fields }

end Production

namespace Definition

/-- The names of the fields. -/
def names : List String :=
  ["seed", "axiom", "productions", "weighted_productions", "bindings", "leaf_marker",
   "iterations"]

/-- The written definition. -/
def encode (num : Float32 → Json) (d : Definition) : Json :=
  .obj
    [("seed", .ofNat d.seed.toNat),
     ("axiom", .ofWord d.start),
     ("productions",
       .arr (d.productions.map fun (symbol, replacement) =>
         .arr [.ofChar symbol, .ofWord replacement])),
     ("weighted_productions", .arr (d.weightedProductions.map (Production.encode num))),
     ("bindings",
       .arr (d.bindings.map fun (symbol, operation) =>
         .arr [.ofChar symbol, operation.encode num])),
     ("leaf_marker", .ofChar d.leafMarker),
     ("iterations", .ofNat d.iterations)]

/-- The definition that is written. -/
def decode (json : Json) : Option Definition := do
  let d : Definition := {}
  let fields ← json.fields? names
  return {
    seed := .ofNat (← Json.optional (Json.nat? Json.bound64) "seed" d.seed.toNat fields)
    start := ← Json.optional Json.word? "axiom" d.start fields
    productions :=
      ← Json.optional (Json.list? (Json.pair? Json.char? Json.word?)) "productions"
        d.productions fields
    weightedProductions :=
      ← Json.optional (Json.list? Production.decode) "weighted_productions"
        d.weightedProductions fields
    bindings :=
      ← Json.optional (Json.list? (Json.pair? Json.char? Operation.decode)) "bindings"
        d.bindings fields
    leafMarker := ← Json.optional Json.char? "leaf_marker" d.leafMarker fields
    iterations := ← Json.optional (Json.nat? Json.bound32) "iterations" d.iterations fields }

/-- The definition as JSON. -/
def toJson (d : Definition) : Json := d.encode Json.ofFloat32

end Definition

end Verdure
