/-
  Verdure.Proofs.Geometry.Ratios

  The two stages of the search for the nearest points of two segments.

  First the second segment is taken for its whole line (`lineRatios`).  Where the nearest point
  of that line is beyond an end of the segment, the parameter is moved to the end, and the one
  on the first segment is found anew (`closestRatios_eq`).
-/
import Verdure.Geometry.Segment

namespace Verdure.Segment

variable {α : Type} [Scalar α]

/-- The vector between the starts of two segments. -/
def offset (p q : Segment α) : Vec3 α := p.start - q.start

/-- The determinant of the equations that the nearest points of two lines meet. -/
def determinant (p q : Segment α) : α :=
  p.span.dot p.span * q.span.dot q.span - p.span.dot q.span * p.span.dot q.span

/-- The parameter of the point on the line of `p` that is nearest to the line of `q`, times the
    determinant. -/
def lineNumerator (p q : Segment α) : α :=
  p.span.dot q.span * q.span.dot (offset p q) - q.span.dot q.span * p.span.dot (offset p q)

/-- The parameters of the points of `p` and of the line through `q` that are nearest to each
    other, as quotients, the one on `p` first. -/
def lineRatios (p q : Segment α) : Ratio α × Ratio α :=
  let a := p.span.dot p.span
  let b := p.span.dot q.span
  let c := q.span.dot q.span
  let d := p.span.dot (offset p q)
  let e := q.span.dot (offset p q)
  let det := determinant p q
  let sNum := lineNumerator p q
  if det < parallelEpsilon then (⟨0.0, 1.0⟩, ⟨e, c⟩)
  else if sNum < 0.0 then (⟨0.0, det⟩, ⟨e, c⟩)
  else if det < sNum then (⟨det, det⟩, ⟨e + b, c⟩)
  else (⟨sNum, det⟩, ⟨a * e - b * d, det⟩)

theorem lineRatios_fst (p q : Segment α) :
    (lineRatios p q).1 =
      if determinant p q < parallelEpsilon then ⟨0.0, 1.0⟩
      else .clamped (lineNumerator p q) (determinant p q) (determinant p q) := by
  unfold lineRatios Ratio.clamped
  dsimp only
  split
  · rfl
  · split
    · rfl
    · split <;> rfl

theorem closestRatios_eq (p q : Segment α) :
    closestRatios p q =
      let a := p.span.dot p.span
      let b := p.span.dot q.span
      let d := p.span.dot (offset p q)
      let (s, t) := lineRatios p q
      if t.num < 0.0 then (.clamped (-d) a s.den, ⟨0.0, t.den⟩)
      else if t.den < t.num then (.clamped (-d + b) a s.den, ⟨t.den, t.den⟩)
      else (s, t) :=
  rfl

theorem closestRatios_fst (p q : Segment α) :
    (closestRatios p q).1 =
      if (lineRatios p q).2.num < 0.0 then
        .clamped (-p.span.dot (offset p q)) (p.span.dot p.span) (lineRatios p q).1.den
      else if (lineRatios p q).2.den < (lineRatios p q).2.num then
        .clamped (-p.span.dot (offset p q) + p.span.dot q.span) (p.span.dot p.span)
          (lineRatios p q).1.den
      else (lineRatios p q).1 := by
  rw [closestRatios_eq]
  dsimp only
  split
  · rfl
  · split <;> rfl

theorem closestRatios_snd (p q : Segment α) :
    (closestRatios p q).2 =
      .clamped (lineRatios p q).2.num (lineRatios p q).2.den (lineRatios p q).2.den := by
  rw [closestRatios_eq]
  unfold Ratio.clamped
  dsimp only
  split
  · rfl
  · split <;> rfl

end Verdure.Segment
