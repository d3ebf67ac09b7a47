/-
  Verdure.Geometry.Segment

  Line segments: the distance between two of them, and the test of one against a box.

  The distance is taken between the points at two parameters, one on each segment.
  `closestRatios` finds the parameters as unevaluated quotients, `closestParameters`
  evaluates them, and `distance` measures between the points they name.
-/
import Verdure.Geometry.Box

namespace Verdure

/-- The segment between two points, which may be equal. -/
structure Segment (α : Type) where
  start : Vec3 α
  stop : Vec3 α
  deriving DecidableEq

namespace Segment

variable {α : Type} [Scalar α]

/-- The point halfway along. -/
def midpoint (s : Segment α) : Vec3 α := (s.start + s.stop) * (0.5 : α)

/-- The distance between the end points. -/
def length (s : Segment α) : α := s.start.distance s.stop

/-- The vector from the first end point to the second. -/
@[inline] def span (s : Segment α) : Vec3 α := s.stop - s.start

/-- The point a fraction `t` of the way along. -/
def pointAt (s : Segment α) (t : α) : Vec3 α := s.start + s.span * t

/-! ## Distance -/

/-- Below this determinant two segments are treated as parallel. -/
@[inline] def parallelEpsilon : α := 0.0001

/-- A parameter whose numerator is nearer to zero than this is taken to be zero. -/
@[inline] def parameterEpsilon : α := 0.00001

/-- A quotient whose division is still to come. -/
structure Ratio (α : Type) where
  num : α
  den : α
  deriving DecidableEq

/-- The value of a quotient, zero if the numerator is negligible. -/
@[inline] def Ratio.value (r : Ratio α) : α :=
  if Scalar.abs r.num < parameterEpsilon then 0.0 else r.num / r.den

/-- The quotient `q / a` moved into `[0, 1]`.  At an end of the interval the denominator
    stays `den`. -/
@[inline] def Ratio.clamped (q a den : α) : Ratio α :=
  if q < 0.0 then ⟨0.0, den⟩ else if a < q then ⟨den, den⟩ else ⟨q, a⟩

/-- The parameters of the points of two segments that are nearest to each other, as
    quotients, the parameter on `p` first.

    The closest points of the supporting lines come first, with the parameter on `p` moved
    into its segment.  If the parameter on `q` is then outside of `q`, it is moved to the
    end it passed and the parameter on `p` is found anew for that end point. -/
@[specialize] def closestRatios (p q : Segment α) : Ratio α × Ratio α :=
  let u := p.span
  let v := q.span
  let w := p.start - q.start
  let a := u.dot u
  let b := u.dot v
  let c := v.dot v
  let d := u.dot w
  let e := v.dot w
  let det := a * c - b * b
  let (s, t) : Ratio α × Ratio α :=
    if det < parallelEpsilon then (⟨0.0, 1.0⟩, ⟨e, c⟩)
    else
      let sNum := b * e - c * d
      if sNum < 0.0 then (⟨0.0, det⟩, ⟨e, c⟩)
      else if det < sNum then (⟨det, det⟩, ⟨e + b, c⟩)
      else (⟨sNum, det⟩, ⟨a * e - b * d, det⟩)
  if t.num < 0.0 then (.clamped (-d) a s.den, ⟨0.0, t.den⟩)
  else if t.den < t.num then (.clamped (-d + b) a s.den, ⟨t.den, t.den⟩)
  else (s, t)

/-- The parameters of the points of two segments that are nearest to each other, the
    parameter on `p` first. -/
@[specialize] def closestParameters (p q : Segment α) : α × α :=
  let (s, t) := closestRatios p q
  (s.value, t.value)

/-- The vector from the point at `t` on `q` to the point at `s` on `p`. -/
@[inline] def gap (p q : Segment α) (s t : α) : Vec3 α :=
  (p.start - q.start) + p.span * s - q.span * t

/-- The distance between two segments. -/
@[specialize] def distance (p q : Segment α) : α :=
  let (s, t) := closestParameters p q
  (gap p q s t).length

/-! ## Boxes -/

/-- Along an axis on which it moves less than this, a segment is treated as not moving:
    2⁻²³, the gap between `1` and the next binary32 number. -/
@[inline] def stillEpsilon : α := 0.00000011920928955078125

/-- The parameters in `[range.1, range.2]` at which a point that starts at `origin` and
    moves by `delta` is in `[lo, hi]`, or `none` if there are none. -/
@[specialize] def slab (lo hi origin delta : α) (range : α × α) : Option (α × α) :=
  if Scalar.abs delta < stillEpsilon then
    if origin < lo ∨ hi < origin then none else some range
  else
    let inv := 1.0 / delta
    let t0 := (lo - origin) * inv
    let t1 := (hi - origin) * inv
    let (t0, t1) := if t1 < t0 then (t1, t0) else (t0, t1)
    let tMin := Scalar.max range.1 t0
    let tMax := Scalar.min range.2 t1
    if tMax < tMin then none else some (tMin, tMax)

/-- The segment enters the box: the slabs of the three axes share a parameter in
    `[0, 1]`. -/
@[specialize] def meetsBox (s : Segment α) (b : Box α) : Bool :=
  let onAxis (axis : Axis) (range : α × α) : Option (α × α) :=
    slab (b.lower.get axis) (b.upper.get axis) (s.start.get axis) (s.span.get axis) range
  ((onAxis .x (0.0, 1.0)).bind fun r => (onAxis .y r).bind fun r => onAxis .z r).isSome

end Segment

end Verdure
