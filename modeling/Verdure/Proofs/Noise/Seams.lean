/-
  Verdure.Proofs.Noise.Seams

  Gradient noise in space has no seams.

  Neighbouring cells of the lattice blend the gradients of the corners of their common face, and
  a blend at the end of an axis leaves the other corners out, so in exact arithmetic both cells
  have one value on the face (`cellValue_seam_x` and its two companions).  Pieces over the
  intervals between the integers that agree where they meet make one continuous function
  (`Meets.continuous_glued`), and the noise is glued along one axis after the other.

  A cell is closed for these purposes: at the fraction 1, where rounding can put a point just
  below a lattice plane, its blend is the value of the noise on the plane.
-/
import Mathlib.Topology.Algebra.Monoid
import Mathlib.Topology.Instances.Real.Lemmas
import Mathlib.Topology.Order.OrderClosed
import Verdure.Noise.Perlin
import Verdure.Proofs.Binary32.Integral
import Verdure.Proofs.Exact.Real
import Verdure.Proofs.PointTree.Distance

namespace Verdure.Noise

open Topology

/-! ## Gluing along a line -/

section Gluing

variable {X : Type} {G : ℤ → ℝ → X → ℝ}

/-- Pieces over the unit intervals of a line, `G n` over the one from `n` to `n + 1`, agree where
    two intervals meet. -/
def Meets (G : ℤ → ℝ → X → ℝ) : Prop := ∀ n x, G n 1 x = G (n + 1) 0 x

/-- The pieces as one function of the line. -/
noncomputable def glued (G : ℤ → ℝ → X → ℝ) (t : ℝ) (x : X) : ℝ := G ⌊t⌋ (t - ⌊t⌋) x

/-- Each piece is part of the whole on its closed interval. -/
theorem Meets.glued_eq (h : Meets G) (n : ℤ) {s : ℝ} (h_nonneg : 0 ≤ s) (h_le : s ≤ 1) (x : X) :
    glued G (n + s) x = G n s x := by
  unfold glued
  rcases h_le.lt_or_eq with h_lt | rfl
  · have h_floor : ⌊(n : ℝ) + s⌋ = n := by
      rw [Int.floor_intCast_add, Int.floor_eq_zero_iff.mpr ⟨h_nonneg, h_lt⟩, add_zero]
    rw [h_floor, add_sub_cancel_left]
  · have h_floor : ⌊(n : ℝ) + 1⌋ = n + 1 := by
      rw [Int.floor_add_one, Int.floor_intCast]
    rw [h_floor, Int.cast_add, Int.cast_one, sub_self]
    exact (h n x).symm

theorem Meets.continuous_glued [TopologicalSpace X] (h : Meets G)
    (h_pieces : ∀ n, Continuous fun q : ℝ × X => G n q.1 q.2) :
    Continuous fun q : ℝ × X => glued G q.1 q.2 := by
  rw [continuous_iff_continuousAt]
  rintro ⟨t, x⟩
  -- Around `t` only the piece of `t` and the one before it count.
  have h_pair : Continuous fun q : ℝ × X =>
      if q.1 ≤ ⌊t⌋ then G (⌊t⌋ - 1) (q.1 - (⌊t⌋ - 1)) q.2 else G ⌊t⌋ (q.1 - ⌊t⌋) q.2 := by
    refine Continuous.if_le ?_ ?_ continuous_fst continuous_const ?_
    · exact (h_pieces (⌊t⌋ - 1)).comp
        ((continuous_fst.sub continuous_const).prodMk continuous_snd)
    · exact (h_pieces ⌊t⌋).comp ((continuous_fst.sub continuous_const).prodMk continuous_snd)
    · rintro ⟨u, y⟩ h_u
      have h_meet := h (⌊t⌋ - 1) y
      rw [sub_add_cancel] at h_meet
      dsimp only at h_u ⊢
      rw [h_u, sub_self, sub_sub_cancel]
      exact h_meet
  refine h_pair.continuousAt.congr ?_
  have h_near : ∀ᶠ q : ℝ × X in 𝓝 (t, x), q.1 ∈ Set.Ioo ((⌊t⌋ : ℝ) - 1) (⌊t⌋ + 1) := by
    refine continuous_fst.continuousAt.eventually_mem (Ioo_mem_nhds ?_ (Int.lt_floor_add_one t))
    have h_le := Int.floor_le t
    linarith
  filter_upwards [h_near] with q h_q
  obtain ⟨h_low, h_high⟩ := h_q
  split
  next h_le =>
    have h_glued := h.glued_eq (⌊t⌋ - 1) (s := q.1 - (⌊t⌋ - 1)) (by linarith) (by linarith) q.2
    rw [← h_glued]
    push_cast
    rw [add_sub_cancel]
  next h_gt =>
    have h_glued := h.glued_eq ⌊t⌋ (s := q.1 - ⌊t⌋) (by linarith) (by linarith) q.2
    rw [← h_glued, add_sub_cancel]

end Gluing

/-! ## Blends -/

theorem fade_zero : fade (0 : ℝ) = 0 := by
  norm_num [fade]

theorem fade_one : fade (1 : ℝ) = 1 := by
  norm_num [fade]

theorem lerp_zero (a b : ℝ) : Scalar.lerp a b 0 = a := by
  rw [Scalar.lerp, zero_mul, add_zero]

theorem lerp_one (a b : ℝ) : Scalar.lerp a b 1 = b := by
  rw [Scalar.lerp, one_mul, add_sub_cancel]

section Continuity

variable {Y : Type} [TopologicalSpace Y] {f g h : Y → ℝ}

theorem continuous_fade (hf : Continuous f) : Continuous fun q => fade (f q) := by
  unfold fade
  fun_prop

theorem continuous_lerp (hf : Continuous f) (hg : Continuous g) (hh : Continuous h) :
    Continuous fun q => Scalar.lerp (f q) (g q) (h q) := by
  unfold Scalar.lerp
  fun_prop

/-- The gradient is chosen by the hash alone. -/
theorem continuous_gradient3 (hash : Nat) (hf : Continuous f) (hg : Continuous g)
    (hh : Continuous h) : Continuous fun q => gradient3 hash (f q) (g q) (h q) := by
  unfold gradient3
  dsimp only
  split_ifs <;> fun_prop

end Continuity

namespace Perlin

variable (noise : Perlin) (x y z : ℤ)

/-! ## Faces

At the end of an axis the blend along it leaves out the four corners at the other end. -/

theorem cellValue_seam_x (b c : ℝ) :
    noise.cellValue x y z ⟨1, b, c⟩ = noise.cellValue (x + 1) y z ⟨0, b, c⟩ := by
  simp only [cellValue, fade_zero, fade_one, lerp_zero, lerp_one]
  norm_num

theorem cellValue_seam_y (a c : ℝ) :
    noise.cellValue x y z ⟨a, 1, c⟩ = noise.cellValue x (y + 1) z ⟨a, 0, c⟩ := by
  simp only [cellValue, fade_zero, fade_one, lerp_zero, lerp_one]
  norm_num

theorem cellValue_seam_z (a b : ℝ) :
    noise.cellValue x y z ⟨a, b, 1⟩ = noise.cellValue x y (z + 1) ⟨a, b, 0⟩ := by
  simp only [cellValue, fade_zero, fade_one, lerp_zero, lerp_one]
  norm_num

/-- Within a cell the noise is a continuous function of the position. -/
theorem continuous_inCell {Y : Type} [TopologicalSpace Y] {f g h : Y → ℝ} (hf : Continuous f)
    (hg : Continuous g) (hh : Continuous h) :
    Continuous fun q => noise.inCell x y z ⟨f q, g q, h q⟩ := by
  have h_value : Continuous fun q => noise.cellValue x y z ⟨f q, g q, h q⟩ := by
    unfold cellValue
    have h_u := continuous_fade hf
    have h_v := continuous_fade hg
    have h_w := continuous_fade hh
    refine continuous_lerp (continuous_lerp (continuous_lerp ?_ ?_ h_u) (continuous_lerp ?_ ?_ h_u)
      h_v) (continuous_lerp (continuous_lerp ?_ ?_ h_u) (continuous_lerp ?_ ?_ h_u) h_v) h_w
    all_goals exact continuous_gradient3 _ (by fun_prop) (by fun_prop) (by fun_prop)
  unfold inCell
  simp only [Scalar.clamp_real]
  fun_prop

/-! ## The noise of space

Cells are glued to columns along `z`, columns to slabs along `y`, and slabs to all of space. -/

/-- The cells above one another. -/
noncomputable def column : ℝ → ℝ × ℝ → ℝ :=
  glued fun z c (q : ℝ × ℝ) => noise.inCell x y z ⟨q.1, q.2, c⟩

/-- The columns side by side. -/
noncomputable def slab : ℝ → ℝ × ℝ → ℝ :=
  glued fun y b (q : ℝ × ℝ) => noise.column x y q.2 (q.1, b)

/-- The noise at a point of space, in exact arithmetic. -/
noncomputable def exact (p : Vec3 ℝ) : ℝ := noise.sampleBy (fun t => (⌊t⌋ : ℝ)) Int.floor p

theorem exact_eq (p : Vec3 ℝ) :
    noise.exact p = glued (fun x a (q : ℝ × ℝ) => noise.slab x q.1 (a, q.2)) p.x (p.y, p.z) := rfl

theorem meets_cells : Meets fun z c (q : ℝ × ℝ) => noise.inCell x y z ⟨q.1, q.2, c⟩ := by
  intro z q
  simp only [inCell, cellValue_seam_z]

theorem meets_columns : Meets fun y b (q : ℝ × ℝ) => noise.column x y q.2 (q.1, b) := by
  intro y q
  simp only [column, glued, inCell, cellValue_seam_y]

theorem meets_slabs : Meets fun x a (q : ℝ × ℝ) => noise.slab x q.1 (a, q.2) := by
  intro x q
  simp only [slab, column, glued, inCell, cellValue_seam_x]

theorem continuous_column : Continuous fun q : ℝ × ℝ × ℝ => noise.column x y q.1 q.2 :=
  (noise.meets_cells x y).continuous_glued fun z =>
    noise.continuous_inCell x y z (continuous_fst.comp continuous_snd)
      (continuous_snd.comp continuous_snd) continuous_fst

theorem continuous_slab : Continuous fun q : ℝ × ℝ × ℝ => noise.slab x q.1 q.2 := by
  refine (noise.meets_columns x).continuous_glued fun y => ?_
  show Continuous ((fun q : ℝ × ℝ × ℝ => noise.column x y q.1 q.2) ∘
    fun q : ℝ × ℝ × ℝ => (q.2.2, q.2.1, q.1))
  exact (noise.continuous_column x y).comp (by fun_prop)

theorem continuous_exact : Continuous fun q : ℝ × ℝ × ℝ => noise.exact ⟨q.1, q.2.1, q.2.2⟩ := by
  refine noise.meets_slabs.continuous_glued fun x => ?_
  show Continuous ((fun q : ℝ × ℝ × ℝ => noise.slab x q.1 q.2) ∘
    fun q : ℝ × ℝ × ℝ => (q.2.1, q.1, q.2.2))
  exact (noise.continuous_slab x).comp (by fun_prop)

/-- The blend of a cell is the noise of space all over the closed cell. -/
theorem exact_eq_inCell {a b c : ℝ} (ha : 0 ≤ a ∧ a ≤ 1) (hb : 0 ≤ b ∧ b ≤ 1)
    (hc : 0 ≤ c ∧ c ≤ 1) :
    noise.exact ⟨x + a, y + b, z + c⟩ = noise.inCell x y z ⟨a, b, c⟩ := by
  rw [exact_eq, noise.meets_slabs.glued_eq x ha.1 ha.2, slab,
    (noise.meets_columns x).glued_eq y hb.1 hb.2, column,
    (noise.meets_cells x y).glued_eq z hc.1 hc.2]

/-! ## Rounded fractions -/

/-- The position in its lattice cell that rounding leaves of a point. -/
noncomputable def fraction (p : Point) : Vec3 ℝ :=
  ⟨Binary32.value (p.x - Binary32.floor p.x), Binary32.value (p.y - Binary32.floor p.y),
    Binary32.value (p.z - Binary32.floor p.z)⟩

/-- The place of space that a point is sampled for. -/
noncomputable def sampledPlace (p : Point) : ℝ × ℝ × ℝ :=
  (Binary32.floorToInt32 p.x + (fraction p).x, Binary32.floorToInt32 p.y + (fraction p).y,
    Binary32.floorToInt32 p.z + (fraction p).z)

/-- The blend of the cell of a point at the position that rounding leaves of it, in exact
    arithmetic from there on. -/
noncomputable def sampledValue (p : Point) : ℝ :=
  noise.inCell (Binary32.floorToInt32 p.x) (Binary32.floorToInt32 p.y)
    (Binary32.floorToInt32 p.z) (fraction p)

theorem fraction_mem_unit {x : Float32} (hx : |Binary32.ordinal x| < Binary32.top) :
    (0 : ℝ) ≤ (Binary32.value (x - Binary32.floor x) : ℝ) ∧
      (Binary32.value (x - Binary32.floor x) : ℝ) ≤ 1 := by
  obtain ⟨-, h_nonneg, h_le⟩ := Binary32.sub_floor_mem_unit hx
  exact ⟨by exact_mod_cast h_nonneg, by exact_mod_cast h_le⟩

theorem exact_sampledPlace {p : Point} (h : p.IsFinite) :
    noise.exact ⟨(sampledPlace p).1, (sampledPlace p).2.1, (sampledPlace p).2.2⟩
      = noise.sampledValue p :=
  noise.exact_eq_inCell _ _ _ (fraction_mem_unit (h.abs_ordinal_lt .x))
    (fraction_mem_unit (h.abs_ordinal_lt .y)) (fraction_mem_unit (h.abs_ordinal_lt .z))

/-- **Gradient noise has no seams.**  In exact arithmetic the blend of a cell at the end of an
    axis is that of the next cell at the start of it, at every position on the face, and the
    noise is a continuous function of space.

    Rounding may put a finite point at the end of an axis of its cell.  There and anywhere
    else the blend of the cell is the limit of the noise at the place the point is sampled
    for. -/
theorem seamless (noise : Perlin) :
    (∀ (x y z : ℤ) (a b : ℝ),
      noise.cellValue x y z ⟨1, a, b⟩ = noise.cellValue (x + 1) y z ⟨0, a, b⟩ ∧
      noise.cellValue x y z ⟨a, 1, b⟩ = noise.cellValue x (y + 1) z ⟨a, 0, b⟩ ∧
      noise.cellValue x y z ⟨a, b, 1⟩ = noise.cellValue x y (z + 1) ⟨a, b, 0⟩) ∧
    (Continuous fun q : ℝ × ℝ × ℝ => noise.exact ⟨q.1, q.2.1, q.2.2⟩) ∧
    ∀ p : Point, p.IsFinite →
      Filter.Tendsto (fun q : ℝ × ℝ × ℝ => noise.exact ⟨q.1, q.2.1, q.2.2⟩)
        (𝓝 (sampledPlace p)) (𝓝 (noise.sampledValue p)) := by
  refine ⟨fun x y z a b => ⟨noise.cellValue_seam_x x y z a b, noise.cellValue_seam_y x y z a b,
    noise.cellValue_seam_z x y z a b⟩, noise.continuous_exact, fun p h_p => ?_⟩
  rw [← noise.exact_sampledPlace h_p]
  exact noise.continuous_exact.tendsto (sampledPlace p)

/-- Just below the origin a point is at the end of the `x` axis of its cell, and sampled for a
    place on the plane through the origin. -/
theorem seamless_rounded_up :
    Binary32.floorToInt32 (.ofBits 0xb0800000) = -1 ∧
    Float32.ofBits 0xb0800000 - Binary32.floor (.ofBits 0xb0800000) = 1.0 ∧
    Vec3.IsFinite ⟨.ofBits 0xb0800000, 0.25, 2.5⟩ ∧
    Filter.Tendsto (fun q : ℝ × ℝ × ℝ => exact ⟨7⟩ ⟨q.1, q.2.1, q.2.2⟩)
      (𝓝 (sampledPlace ⟨.ofBits 0xb0800000, 0.25, 2.5⟩))
      (𝓝 (sampledValue ⟨7⟩ ⟨.ofBits 0xb0800000, 0.25, 2.5⟩)) := by
  have h_finite : Vec3.IsFinite ⟨.ofBits 0xb0800000, 0.25, 2.5⟩ := by
    intro axis
    cases axis <;> decide
  exact ⟨by decide, by decide, h_finite, (seamless ⟨7⟩).2.2 _ h_finite⟩

end Perlin

end Verdure.Noise
