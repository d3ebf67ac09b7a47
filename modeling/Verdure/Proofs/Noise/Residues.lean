/-
  Verdure.Proofs.Noise.Residues

  What gradient noise sees of its seed.

  The seed of a lattice is added to a coordinate and the last 8 bits of the sum are kept, at
  every level of the nested look-ups.  Neither the sum, which wraps around, nor the mask, which
  meets negative sums too, changes what the sum is modulo 256 (`scatter_eq`).  So lattices
  whose seeds agree modulo 256 scatter alike, and others do not (`scatter_eq_iff`).  All that is
  made of scattered values is alike then: samples, the angles and the leaf variants drawn from
  them, and whole runs.
-/
import Mathlib.Data.Int.ModEq
import Mathlib.Data.List.Nodup
import Mathlib.Data.List.Sort
import Verdure.Run.Interpret

namespace Verdure

namespace Noise

/-! ## Scattering -/

/-- The entry of the permutation that a coordinate is scattered to. -/
def slot (seed : Int32) (i : ℤ) : Fin 256 := ⟨((i + seed.toInt) % 256).toNat, by omega⟩

theorem toNat_and_255 (w : UInt32) : (w &&& 255).toNat = w.toNat % 256 := by
  rw [UInt32.toNat_and]
  exact Nat.and_two_pow_sub_one_eq_mod w.toNat 8

/-- The sum of coordinate and seed, as the word it wraps around to. -/
theorem toNat_add_seed (seed : Int32) (i : ℤ) :
    (Int32.ofInt i + seed).toUInt32.toNat = ((i + seed.toInt) % 2 ^ 32).toNat := by
  have h_seed : seed.toBitVec = BitVec.ofInt 32 seed.toInt := BitVec.ofInt_toInt.symm
  have h_word : (Int32.ofInt i + seed).toUInt32.toBitVec = BitVec.ofInt 32 (i + seed.toInt) := by
    rw [Int32.toBitVec_toUInt32, Int32.toBitVec_add, Int32.toBitVec_ofInt, BitVec.ofInt_add,
      ← h_seed]
  rw [← UInt32.toNat_toBitVec, h_word, BitVec.toNat_ofInt]
  rfl

theorem scatter_eq (seed : Int32) (i : ℤ) : scatter seed i = permutation.get (slot seed i) := by
  rw [scatter]
  congr 1
  rw [slot, Fin.mk.injEq, toNat_and_255, toNat_add_seed]
  -- As 256 divides 2 ^ 32, it does not show in the last 8 bits that the sum wraps around.
  omega

theorem slot_eq_iff {s s' : Int32} {i : ℤ} :
    slot s i = slot s' i ↔ s.toInt ≡ s'.toInt [ZMOD 256] := by
  rw [slot, slot, Fin.mk.injEq, Int.ModEq]
  omega

theorem get_injective_of_nodup {α : Type} {n : ℕ} {v : Vector α n} (h : v.toList.Nodup) :
    Function.Injective v.get := by
  intro a b h_get
  have h_a : a.val < v.toList.length := a.isLt.trans_eq v.length_toList.symm
  have h_b : b.val < v.toList.length := b.isLt.trans_eq v.length_toList.symm
  have h_list : v.toList[a.val] = v.toList[b.val] := by
    rw [Vector.getElem_toList, Vector.getElem_toList]
    exact h_get
  exact Fin.ext (h.getElem_inj_iff.mp h_list)

/-- What the permutation lists are the numbers below 256, each of them once. -/
theorem permutation_perm : permutation.toList.Perm (List.range 256) := by
  have h_sorted : permutation.toList.insertionSort (· ≤ ·) = List.range 256 := by decide +kernel
  rw [← h_sorted]
  exact (List.perm_insertionSort _ _).symm

theorem permutation_injective : Function.Injective permutation.get :=
  get_injective_of_nodup (permutation_perm.nodup_iff.mpr List.nodup_range)

/-- A coordinate is scattered alike under two seeds just if they agree modulo 256. -/
theorem scatter_eq_iff {s s' : Int32} {i : ℤ} :
    scatter s i = scatter s' i ↔ s.toInt ≡ s'.toInt [ZMOD 256] := by
  rw [scatter_eq, scatter_eq, permutation_injective.eq_iff, slot_eq_iff]

/-! ## Samples -/

variable {s s' : Int32} (h : s.toInt ≡ s'.toInt [ZMOD 256])
include h

theorem scatter_congr : scatter s = scatter s' := funext fun _ => scatter_eq_iff.mpr h

theorem Perlin.corner_congr : (⟨s⟩ : Perlin).corner = (⟨s'⟩ : Perlin).corner := by
  funext x y z
  simp only [Perlin.corner, scatter_congr h]

theorem Simplex.corner_congr : (⟨s⟩ : Simplex).corner = (⟨s'⟩ : Simplex).corner := by
  funext i j
  simp only [Simplex.corner, scatter_congr h]

theorem Perlin.sample_congr : (⟨s⟩ : Perlin).sample = (⟨s'⟩ : Perlin).sample := by
  funext p
  simp only [Perlin.sample, Perlin.sampleBy, Perlin.inCell, Perlin.cellValue,
    Perlin.corner_congr h]

theorem Perlin.sampleSigned_congr :
    (⟨s⟩ : Perlin).sampleSigned = (⟨s'⟩ : Perlin).sampleSigned := by
  funext p
  simp only [Perlin.sampleSigned, Perlin.sample_congr h]

theorem Simplex.sample_congr : (⟨s⟩ : Simplex).sample = (⟨s'⟩ : Simplex).sample := by
  funext x y
  simp only [Simplex.sample, Simplex.corner_congr h]

theorem Simplex.sampleSigned_congr :
    (⟨s⟩ : Simplex).sampleSigned = (⟨s'⟩ : Simplex).sampleSigned := by
  funext x y
  simp only [Simplex.sampleSigned, Simplex.sample_congr h]

end Noise

/-! ## Runs

Of the noise, operations read nothing but samples in space. -/

section Runs

variable {noise noise' : Noise.Source} (h : noise.perlin.sample = noise'.perlin.sample)
include h

theorem Turn.radians_congr (turn : Turn) (nesting : Nesting) (st : RunState) :
    turn.radians ⟨nesting, noise⟩ st = turn.radians ⟨nesting, noise'⟩ st := by
  simp only [Turn.radians, h]

theorem LeafStyle.variantAt_congr (style : LeafStyle) (nesting : Nesting) (st : RunState) :
    style.variantAt ⟨nesting, noise⟩ st = style.variantAt ⟨nesting, noise'⟩ st := by
  simp only [LeafStyle.variantAt, Noise.Perlin.sampleSigned, h]

theorem Operation.apply_congr (operation : Operation) (nesting : Nesting) (st : RunState) :
    operation.apply ⟨nesting, noise⟩ st = operation.apply ⟨nesting, noise'⟩ st := by
  cases operation with
  | leaf style => simp only [apply, LeafStyle.draw, LeafStyle.variantAt_congr h]
  | rotate turn => simp only [apply, Turn.radians_congr h]
  | tilt turn => simp only [apply, Turn.radians_congr h]
  | branch | push | pop | tick => rfl

namespace Bindings

variable (bindings : Bindings)

theorem step_congr (nesting : Nesting) (k : Nat) (symbol : Char) (st : RunState) :
    bindings.step ⟨nesting, noise⟩ k symbol st = bindings.step ⟨nesting, noise'⟩ k symbol st := by
  simp only [step, Operation.apply_congr h]

theorem runFrom_congr (nesting : Nesting) (k : Nat) (word : Word) (st : RunState) :
    bindings.runFrom ⟨nesting, noise⟩ k word st = bindings.runFrom ⟨nesting, noise'⟩ k word st := by
  induction word generalizing k st with
  | nil => rfl
  | cons symbol rest ih => simp only [runFrom, step_congr h, ih]

theorem run_congr (word : Word) (scene : Scene) (world : Collision.World) :
    bindings.run noise word scene world = bindings.run noise' word scene world :=
  bindings.runFrom_congr h _ 0 word _

end Bindings

end Runs

namespace Noise

/-- **Gradient noise sees a seed modulo 256 only.**  Lattices whose seeds agree modulo 256 have
    the same samples everywhere, in space and in the plane.

    So sources whose lattices in space have such seeds turn the turtle by the same angles and
    pick the same variants of leaves wherever it is, and runs over a word are the same with
    either, whatever the seeds of the sources are. -/
theorem seen_modulo_256 :
    (∀ s s' : Int32, s.toInt ≡ s'.toInt [ZMOD 256] →
      (∀ p, (⟨s⟩ : Perlin).sample p = (⟨s'⟩ : Perlin).sample p) ∧
      (∀ p, (⟨s⟩ : Perlin).sampleSigned p = (⟨s'⟩ : Perlin).sampleSigned p) ∧
      (∀ x y, (⟨s⟩ : Simplex).sample x y = (⟨s'⟩ : Simplex).sample x y) ∧
      ∀ x y, (⟨s⟩ : Simplex).sampleSigned x y = (⟨s'⟩ : Simplex).sampleSigned x y) ∧
    ∀ noise noise' : Source, noise.perlin.seed.toInt ≡ noise'.perlin.seed.toInt [ZMOD 256] →
      (∀ p, noise.perlin.sampleSigned p = noise'.perlin.sampleSigned p) ∧
      (∀ (turn : Turn) nesting st,
        turn.radians ⟨nesting, noise⟩ st = turn.radians ⟨nesting, noise'⟩ st) ∧
      (∀ (style : LeafStyle) nesting st,
        style.variantAt ⟨nesting, noise⟩ st = style.variantAt ⟨nesting, noise'⟩ st) ∧
      ∀ (bindings : Bindings) word scene world,
        bindings.run noise word scene world = bindings.run noise' word scene world := by
  constructor
  · intro s s' h
    exact ⟨congrFun (Perlin.sample_congr h), congrFun (Perlin.sampleSigned_congr h),
      congrFun₂ (Simplex.sample_congr h), congrFun₂ (Simplex.sampleSigned_congr h)⟩
  · intro noise noise' h
    have h_perlin : noise.perlin.sample = noise'.perlin.sample := Perlin.sample_congr h
    exact ⟨congrFun (Perlin.sampleSigned_congr h), fun turn => turn.radians_congr h_perlin,
      fun style => style.variantAt_congr h_perlin, fun bindings => bindings.run_congr h_perlin⟩

/-- The greatest seed is like `-1`, and sources made from different words may be alike. -/
theorem seen_modulo_256_unlike_seeds :
    (∀ p, (⟨2147483647⟩ : Perlin).sample p = (⟨-1⟩ : Perlin).sample p) ∧
    (Source.ofSeed 40).perlin ≠ (Source.ofSeed 41).perlin ∧
    ∀ (turn : Turn) nesting st, turn.radians ⟨nesting, .ofSeed 40⟩ st
      = turn.radians ⟨nesting, .ofSeed 41⟩ st :=
  ⟨(seen_modulo_256.1 2147483647 (-1) (by decide)).1, by decide,
    (seen_modulo_256.2 (.ofSeed 40) (.ofSeed 41) (by decide)).2.1⟩

end Noise

end Verdure
