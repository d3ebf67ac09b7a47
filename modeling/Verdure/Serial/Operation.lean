/-
  Verdure.Serial.Operation

  The written form of operations and influences.

  An operation without parameters is written as its name, and any other one as an object
  with the name as its only key and the record of the parameters below it.  A parameter
  that is not written has its default.  How numbers are written is left open in `encode`,
  which takes it as a function.
-/
import Verdure.Operation
import Verdure.Scene
import Verdure.Serial.Json

namespace Verdure

/-- Where 32-bit counts end. -/
def Json.bound32 : Nat := 0x100000000

/-- Where 64-bit counts end. -/
def Json.bound64 : Nat := 0x10000000000000000

namespace BranchStyle

/-- The names of the parameters. -/
def names : List String :=
  ["depth_falloff", "base_travel", "base_scale", "shallow_depth", "shallow_travel",
   "shallow_scale", "min_height", "segment_inset", "segment_reach", "neighbors", "clearance"]

/-- The written parameters. -/
def encode (num : Float32 → Json) (s : BranchStyle) : Json :=
  .obj
    [("depth_falloff", num s.depthFalloff), ("base_travel", num s.baseTravel),
     ("base_scale", num s.baseScale), ("shallow_depth", .ofNat s.shallowDepth),
     ("shallow_travel", num s.shallowTravel), ("shallow_scale", num s.shallowScale),
     ("min_height", num s.minHeight), ("segment_inset", num s.segmentInset),
     ("segment_reach", num s.segmentReach), ("neighbors", .ofNat s.neighbors),
     ("clearance", num s.clearance)]

/-- The parameters that are written. -/
def decode (json : Json) : Option BranchStyle := do
  let d : BranchStyle := {}
  let fields ← json.fields? names
  return {
    depthFalloff := ← Json.optional Json.float32? "depth_falloff" d.depthFalloff fields
    baseTravel := ← Json.optional Json.float32? "base_travel" d.baseTravel fields
    baseScale := ← Json.optional Json.float32? "base_scale" d.baseScale fields
    shallowDepth := ← Json.optional (Json.nat? Json.bound32) "shallow_depth" d.shallowDepth fields
    shallowTravel := ← Json.optional Json.float32? "shallow_travel" d.shallowTravel fields
    shallowScale := ← Json.optional Json.float32? "shallow_scale" d.shallowScale fields
    minHeight := ← Json.optional Json.float32? "min_height" d.minHeight fields
    segmentInset := ← Json.optional Json.float32? "segment_inset" d.segmentInset fields
    segmentReach := ← Json.optional Json.float32? "segment_reach" d.segmentReach fields
    neighbors := ← Json.optional (Json.nat? Json.bound64) "neighbors" d.neighbors fields
    clearance := ← Json.optional Json.float32? "clearance" d.clearance fields }

end BranchStyle

namespace LeafStyle

/-- The names of the parameters. -/
def names : List String :=
  ["min_depth", "angle", "scale", "min_height", "variant_frequency", "min_spacing",
   "neighbors"]

/-- The written parameters. -/
def encode (num : Float32 → Json) (s : LeafStyle) : Json :=
  .obj
    [("min_depth", .ofNat s.minDepth), ("angle", num s.angle), ("scale", num s.scale),
     ("min_height", num s.minHeight), ("variant_frequency", num s.variantFrequency),
     ("min_spacing", s.minSpacing.elim .null num), ("neighbors", .ofNat s.neighbors)]

/-- The parameters that are written. -/
def decode (json : Json) : Option LeafStyle := do
  let d : LeafStyle := {}
  let fields ← json.fields? names
  return {
    minDepth := ← Json.optional (Json.nat? Json.bound32) "min_depth" d.minDepth fields
    angle := ← Json.optional Json.float32? "angle" d.angle fields
    scale := ← Json.optional Json.float32? "scale" d.scale fields
    minHeight := ← Json.optional Json.float32? "min_height" d.minHeight fields
    variantFrequency :=
      ← Json.optional Json.float32? "variant_frequency" d.variantFrequency fields
    minSpacing :=
      ← Json.optional (Json.nullable? Json.float32?) "min_spacing" d.minSpacing fields
    neighbors := ← Json.optional (Json.nat? Json.bound64) "neighbors" d.neighbors fields }

end LeafStyle

namespace Turn

/-- The names of the parameters. -/
def names : List String := ["angle", "jitter"]

/-- The written parameters. -/
def encode (num : Float32 → Json) (t : Turn) : Json :=
  .obj [("angle", num t.angle), ("jitter", num t.jitter)]

/-- The parameters that are written, those of `d` where none are. -/
def decode (d : Turn) (json : Json) : Option Turn := do
  let fields ← json.fields? names
  return {
    angle := ← Json.optional Json.float32? "angle" d.angle fields
    jitter := ← Json.optional Json.float32? "jitter" d.jitter fields }

end Turn

namespace Pull

/-- The names of the parameters. -/
def names : List String := ["sun_angle", "gravity_angle"]

/-- The written parameters. -/
def encode (num : Float32 → Json) (p : Pull) : Json :=
  .obj [("sun_angle", num p.sunAngle), ("gravity_angle", num p.gravityAngle)]

/-- The parameters that are written. -/
def decode (json : Json) : Option Pull := do
  let d : Pull := {}
  let fields ← json.fields? names
  return {
    sunAngle := ← Json.optional Json.float32? "sun_angle" d.sunAngle fields
    gravityAngle := ← Json.optional Json.float32? "gravity_angle" d.gravityAngle fields }

end Pull

namespace Operation

/-- The written operation. -/
def encode (num : Float32 → Json) : Operation → Json
  | .branch style => .obj [("DrawBranch", style.encode num)]
  | .leaf style => .obj [("DrawLeaf", style.encode num)]
  | .rotate turn => .obj [("Rotate", turn.encode num)]
  | .tilt turn => .obj [("Tilt", turn.encode num)]
  | .push => .str "PushState"
  | .pop => .str "PopState"
  | .tick pull => .obj [("EnvironmentTick", pull.encode num)]

/-- The operation of a name with its parameters, or null where there are none. -/
def decodeTagged (name : String) (content : Json) : Option Operation :=
  match name with
  | "DrawBranch" => (BranchStyle.decode content).map .branch
  | "DrawLeaf" => (LeafStyle.decode content).map .leaf
  | "Rotate" => (Turn.decode defaultRotate content).map .rotate
  | "Tilt" => (Turn.decode defaultTilt content).map .tilt
  | "EnvironmentTick" => (Pull.decode content).map .tick
  | "PushState" => if content matches .null then some .push else none
  | "PopState" => if content matches .null then some .pop else none
  | _ => none

/-- The operation that is written. -/
def decode : Json → Option Operation
  | .str "PushState" => some .push
  | .str "PopState" => some .pop
  | .obj [(name, content)] => decodeTagged name content
  | _ => none

end Operation

namespace Influences

/-- The names of the fields. -/
def names : List String := ["sunlight", "gravity", "collision_check"]

/-- The written influences. -/
def encode (num : Float32 → Json) (i : Influences) : Json :=
  .obj [("sunlight", num i.sunlight), ("gravity", num i.gravity),
    ("collision_check", .bool i.collisionCheck)]

/-- The influences that are written.  All of them have to be. -/
def decode (json : Json) : Option Influences := do
  let fields ← json.fields? names
  return {
    sunlight := ← Json.required Json.float32? "sunlight" fields
    gravity := ← Json.required Json.float32? "gravity" fields
    collisionCheck := ← Json.required Json.bool? "collision_check" fields }

end Influences

end Verdure
