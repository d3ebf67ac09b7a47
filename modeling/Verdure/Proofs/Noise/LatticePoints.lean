/-
  Verdure.Proofs.Noise.LatticePoints

  Gradient noise at the points of its lattice.

  An integer has nothing left above the integer below it, so a lattice point is at the lowest
  corner of its cell, with zeros of some sign for coordinates.  The gradient of that corner is
  zero there.  Those of the other corners are not, and which they are depends on the seed, but
  a blend with the weight zero leaves its second part out (`Mild.ordinal_lerp`) as long as no
  part of it overflows.  So the blend of the eight gradients is a zero, the noise is one half
  without rounding, and a turn is not jittered.
-/
import Verdure.Proofs.Binary32.Integral
import Verdure.Proofs.Binary32.Zeros
import Verdure.Run.Interpret

namespace Verdure

open Binary32

/-! ## Integers -/

namespace Binary32

/-- The number is an integer. -/
def IsInteger (x : Float32) : Prop := x.isFinite = true ∧ ∃ k : ℤ, value x = k

theorem isInteger_ofInt {k : ℤ} (h : |k| ≤ 2 ^ 23) : IsInteger (Float32.ofInt k) := by
  obtain ⟨h_finite, h_value⟩ := value_ofInt h
  exact ⟨(isFinite_iff _).mpr h_finite, k, h_value⟩

theorem IsZero.isInteger {x : Float32} (h : IsZero x) : IsInteger x := by
  rcases h.eq_or_eq with rfl | rfl
  · exact ⟨by decide, 0, Int.cast_zero.symm⟩
  · exact ⟨by decide, 0, Int.cast_zero.symm⟩

/-- Nothing is left of an integer above the integer below it. -/
theorem IsInteger.isZero_sub_floor {x : Float32} (h : IsInteger x) : IsZero (x - floor x) := by
  obtain ⟨h_finite, k, h_value⟩ := h
  rw [isFinite_iff] at h_finite
  obtain ⟨h_floor, h_floor_value⟩ := value_floor h_finite
  rw [isZero_iff, ordinal_sub h_finite h_floor, h_floor_value, h_value, Int.floor_intCast, sub_self,
    rounded_zero]

end Binary32

/-- All coordinates are integers. -/
def Vec3.IsLattice (p : Point) : Prop := ∀ axis, IsInteger (p.get axis)

/-! ## Blends with the weight zero -/

namespace Noise

/-- The number is at most two from zero, as gradients are at the corners of a cell. -/
def Mild (a : Float32) : Prop := |ordinal a| ≤ ordinal 2.0

theorem value_two : value 2.0 = 2 := by
  show ((8388608 : ℤ) : ℚ) * 2 ^ (-22 : ℤ) = 2
  norm_num

theorem value_four : value 4.0 = 4 := by
  show ((8388608 : ℤ) : ℚ) * 2 ^ (-21 : ℤ) = 4
  norm_num

section Blends

variable {a b t : Float32}

theorem Mild.abs_ordinal_lt (h : Mild a) : |ordinal a| < top := lt_of_le_of_lt h (by decide)

theorem Mild.abs_value_le (h : Mild a) : |value a| ≤ 2 := by
  have h_two : |ordinal 2.0| < top := by decide
  have h_value := abs_value_le_of_abs_ordinal_le h.abs_ordinal_lt h_two
    (h.trans (le_abs_self _))
  rwa [value_two, abs_two] at h_value

theorem Mild.isFinite_sub (ha : Mild a) (hb : Mild b) : (b - a).isFinite = true := by
  rw [isFinite_iff, ordinal_sub hb.abs_ordinal_lt ha.abs_ordinal_lt]
  refine abs_rounded_lt_of_le (y := 4.0) (by decide) ?_
  rw [value_four]
  calc |value b - value a| ≤ |value b| + |value a| := abs_sub _ _
    _ ≤ 2 + 2 := add_le_add hb.abs_value_le ha.abs_value_le
    _ = 4 := by norm_num

/-- A blend with the weight zero is its first part, as zeros of either sign are at one
    position. -/
theorem Mild.ordinal_lerp (ha : Mild a) (hb : Mild b) (ht : IsZero t) :
    ordinal (Scalar.lerp a b t) = ordinal a :=
  (ht.mul (ha.isFinite_sub hb)).ordinal_add a

theorem Mild.lerp (ha : Mild a) (hb : Mild b) (ht : IsZero t) : Mild (Scalar.lerp a b t) := by
  rw [Mild, ha.ordinal_lerp hb ht]
  exact ha

theorem isZero_fade (ht : IsZero t) : IsZero (fade t) := by
  rcases ht.eq_or_eq with rfl | rfl
  · exact ⟨.positive, by decide⟩
  · exact ⟨.negative, by decide⟩

end Blends

/-! ## Gradients -/

section Gradients

variable {x y z : Float32}

/-- A gradient is the sum of two coordinates or their opposites. -/
theorem exists_gradient3_eq {P : Float32 → Prop} (h_neg : ∀ a, P a → P (-a)) (hash : Nat)
    (hx : P x) (hy : P y) (hz : P z) : ∃ u v, P u ∧ P v ∧ gradient3 hash x y z = u + v := by
  have h_if {c : Prop} [Decidable c] {a b : Float32} (ha : P a) (hb : P b) :
      P (if c then a else b) := by
    split
    · exact ha
    · exact hb
  have h_first := h_if (c := hash % 16 < 8) hx hy
  have h_second := h_if (c := hash % 16 < 4) hy
    (h_if (c := hash % 16 = 12 ∨ hash % 16 = 14) hx hz)
  exact ⟨_, _, h_if (h_neg _ h_first) h_first, h_if (h_neg _ h_second) h_second, rfl⟩

theorem isZero_gradient3 (hash : Nat) (hx : IsZero x) (hy : IsZero y) (hz : IsZero z) :
    IsZero (gradient3 hash x y z) := by
  obtain ⟨u, v, h_u, h_v, h_eq⟩ :=
    exists_gradient3_eq (P := IsZero) (fun _ h => h.neg) hash hx hy hz
  rw [h_eq]
  exact h_u.add h_v

theorem abs_value_le_one (h : |ordinal x| ≤ ordinal 1.0) :
    |ordinal x| < top ∧ |value x| ≤ 1 := by
  have h_finite : |ordinal x| < top := lt_of_le_of_lt h (by decide)
  have h_value := abs_value_le_of_abs_ordinal_le h_finite abs_ordinal_one_lt
    (h.trans (le_abs_self _))
  rw [value_one, abs_one] at h_value
  exact ⟨h_finite, h_value⟩

theorem mild_gradient3 (hash : Nat) (hx : |ordinal x| ≤ ordinal 1.0)
    (hy : |ordinal y| ≤ ordinal 1.0) (hz : |ordinal z| ≤ ordinal 1.0) :
    Mild (gradient3 hash x y z) := by
  have h_neg (a : Float32) (ha : |ordinal a| ≤ ordinal 1.0) : |ordinal (-a)| ≤ ordinal 1.0 := by
    rwa [ordinal_neg (abs_value_le_one ha).1, abs_neg]
  obtain ⟨u, v, h_u, h_v, h_eq⟩ := exists_gradient3_eq h_neg hash hx hy hz
  obtain ⟨h_u_finite, h_u_value⟩ := abs_value_le_one h_u
  obtain ⟨h_v_finite, h_v_value⟩ := abs_value_le_one h_v
  rw [h_eq, Mild, ordinal_add h_u_finite h_v_finite]
  refine abs_rounded_le_of_le (by decide) ?_
  rw [value_two]
  calc |value u + value v| ≤ |value u| + |value v| := abs_add_le _ _
    _ ≤ 1 + 1 := add_le_add h_u_value h_v_value
    _ = 2 := by norm_num

end Gradients

/-! ## Cells -/

namespace Perlin

variable (noise : Perlin)

/-- At the lowest corner of a cell only the gradient of that corner counts. -/
theorem ordinal_cellValue (x y z : ℤ) {f : Point} (hx : IsZero f.x) (hy : IsZero f.y)
    (hz : IsZero f.z) :
    ordinal (noise.cellValue x y z f)
      = ordinal (gradient3 (noise.corner x y z) f.x f.y f.z) := by
  have h_low {a : Float32} (ha : IsZero a) : |ordinal a| ≤ ordinal 1.0 := by
    rw [isZero_iff.mp ha]
    decide
  have h_high {a : Float32} (ha : IsZero a) : |ordinal (a - 1.0)| ≤ ordinal 1.0 := by
    rw [ha.sub_one]
    decide
  have h_u := isZero_fade hx
  have h_v := isZero_fade hy
  have h_w := isZero_fade hz
  have h_000 := mild_gradient3 (noise.corner x y z) (h_low hx) (h_low hy) (h_low hz)
  have h_100 := mild_gradient3 (noise.corner (x + 1) y z) (h_high hx) (h_low hy) (h_low hz)
  have h_010 := mild_gradient3 (noise.corner x (y + 1) z) (h_low hx) (h_high hy) (h_low hz)
  have h_110 := mild_gradient3 (noise.corner (x + 1) (y + 1) z) (h_high hx) (h_high hy) (h_low hz)
  have h_001 := mild_gradient3 (noise.corner x y (z + 1)) (h_low hx) (h_low hy) (h_high hz)
  have h_101 := mild_gradient3 (noise.corner (x + 1) y (z + 1)) (h_high hx) (h_low hy) (h_high hz)
  have h_011 := mild_gradient3 (noise.corner x (y + 1) (z + 1)) (h_low hx) (h_high hy) (h_high hz)
  have h_111 := mild_gradient3 (noise.corner (x + 1) (y + 1) (z + 1)) (h_high hx) (h_high hy)
    (h_high hz)
  -- The three weights leave out one axis after the other, the outermost blend first.
  have h_near := (h_000.lerp h_100 h_u).lerp (h_010.lerp h_110 h_u) h_v
  have h_far := (h_001.lerp h_101 h_u).lerp (h_011.lerp h_111 h_u) h_v
  calc ordinal (noise.cellValue x y z f) = _ := h_near.ordinal_lerp h_far h_w
    _ = _ := (h_000.lerp h_100 h_u).ordinal_lerp (h_010.lerp h_110 h_u) h_v
    _ = _ := h_000.ordinal_lerp h_100 h_u

theorem inCell_lowest_corner (x y z : ℤ) {f : Point} (hx : IsZero f.x) (hy : IsZero f.y)
    (hz : IsZero f.z) : noise.inCell x y z f = 0.5 := by
  have h_zero : IsZero (noise.cellValue x y z f) := by
    rw [isZero_iff, noise.ordinal_cellValue x y z hx hy hz, ← isZero_iff]
    exact isZero_gradient3 _ hx hy hz
  unfold inCell
  rcases h_zero.eq_or_eq with h | h <;> rw [h] <;> decide

theorem sample_of_isLattice {p : Point} (h : p.IsLattice) : noise.sample p = 0.5 :=
  noise.inCell_lowest_corner _ _ _ (h .x).isZero_sub_floor (h .y).isZero_sub_floor
    (h .z).isZero_sub_floor

theorem sampleSigned_of_isLattice {p : Point} (h : p.IsLattice) : noise.sampleSigned p = 0.0 := by
  rw [sampleSigned, noise.sample_of_isLattice h]
  decide

end Perlin

end Noise

/-! ## Turns -/

/-- At a lattice point the jitter of a turn is a zero.  In the sum with the angle it can only
    turn a negative zero into a positive one. -/
theorem Turn.radians_of_isLattice (turn : Turn) (env : Surroundings) {st : RunState}
    (h : st.turtle.place.IsLattice) (h_jitter : turn.jitter.isFinite = true) :
    turn.radians env st = Mat4.radians turn.angle ∨
      turn.angle = -0.0 ∧ turn.radians env st = 0.0 := by
  have h_half : IsZero ((0.5 : Float32) - 0.5) := ⟨.positive, by decide⟩
  have h_zero : IsZero (turn.jitter * (0.5 - 0.5) * 2.0) :=
    (h_half.mul_left h_jitter).mul (by decide)
  unfold radians
  rw [env.noise.perlin.sample_of_isLattice h]
  dsimp only
  rcases h_zero.add_eq_or turn.angle with h_sum | ⟨h_angle, h_sum⟩
  · left
    rw [h_sum]
  · right
    rw [h_sum]
    exact ⟨h_angle, by decide⟩

namespace Noise

/-- **Gradient noise is even at the points of its lattice.**  For every seed, at every point
    whose coordinates are integers, the noise is one half and the signed noise is zero, without
    rounding.

    So where the turtle is at such a point, both turns are by their angle as it stands, whatever
    their finite jitter.  An angle of negative zero may be taken as positive zero. -/
theorem even_at_lattice_points :
    (∀ (noise : Perlin) (p : Point), p.IsLattice →
      noise.sample p = 0.5 ∧ noise.sampleSigned p = 0.0) ∧
    ∀ (turn : Turn) (env : Surroundings) (st : RunState), st.turtle.place.IsLattice →
      turn.jitter.isFinite = true →
      ∃ angle, (angle = Mat4.radians turn.angle ∨ turn.angle = -0.0 ∧ angle = 0.0) ∧
        Operation.apply (.rotate turn) env st = .ok (st.move (.rotationY angle)) ∧
        Operation.apply (.tilt turn) env st = .ok (st.move (.rotationZ angle)) := by
  refine ⟨fun noise p h => ⟨noise.sample_of_isLattice h, noise.sampleSigned_of_isLattice h⟩, ?_⟩
  intro turn env st h_place h_jitter
  exact ⟨turn.radians env st, turn.radians_of_isLattice env h_place h_jitter, rfl, rfl⟩

/-- A turtle at `(-3, -0, 4096)` turns by 30 degrees under a jitter of 7.5 degrees. -/
theorem even_at_lattice_points_below :
    let turn : Turn := { angle := 30.0, jitter := 7.5 }
    let env : Surroundings := ⟨Bindings.bracketed.nesting ['R'], .ofSeed 7⟩
    let st : RunState :=
      { turtle := { Turtle.start with position := ⟨-3.0, -0.0, 4096.0, 1.0⟩ }
        scene := {}, world := .empty }
    st.turtle.place.IsLattice ∧ turn.jitter.isFinite = true ∧
      env.noise.perlin.sample st.turtle.place = 0.5 ∧
      Operation.apply (.tilt turn) env st = .ok (st.move (.rotationZ (Mat4.radians 30.0))) := by
  intro turn env st
  have h_x : IsInteger (-3.0) := by
    have h_int : (-3.0 : Float32) = Float32.ofInt (-3) := by decide
    rw [h_int]
    exact isInteger_ofInt (by norm_num)
  have h_z : IsInteger 4096.0 := by
    have h_int : (4096.0 : Float32) = Float32.ofInt 4096 := by decide
    rw [h_int]
    exact isInteger_ofInt (by norm_num)
  have h_place : st.turtle.place.IsLattice := by
    intro axis
    cases axis with
    | x => exact h_x
    | y => exact isZero_zero.neg.isInteger
    | z => exact h_z
  have h_jitter : turn.jitter.isFinite = true := by decide
  obtain ⟨angle, h_angle, -, h_tilt⟩ := even_at_lattice_points.2 turn env st h_place h_jitter
  have h_base : angle = Mat4.radians 30.0 :=
    h_angle.resolve_right fun h_zero => absurd h_zero.1 (by decide)
  rw [h_base] at h_tilt
  exact ⟨h_place, h_jitter, (even_at_lattice_points.1 _ _ h_place).1, h_tilt⟩

end Noise

end Verdure
