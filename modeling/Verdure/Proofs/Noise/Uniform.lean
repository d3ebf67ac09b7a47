/-
  Verdure.Proofs.Noise.Uniform

  White noise is uniform along every key.

  Each stage of the hash keeps apart what enters it, the key of the stage and the hash so far
  alike, so the hash permutes the words in the seed and in each key while the others are fixed.
  A sample is the level named by the top 24 bits of the hash (`sample_eq_level`), and as many
  words have one top as have any other.
-/
import Mathlib.Data.Set.Card
import Mathlib.Order.Interval.Finset.Nat
import Verdure.Noise.Source
import Verdure.Proofs.Binary32.Integral
import Verdure.Proofs.Noise.Words

namespace Verdure.Noise

/-! ## Stages -/

theorem mix64_inj {x y : UInt64} : mix64 x = mix64 y ↔ x = y := mix64_injective.eq_iff

theorem mul_goldenGamma_inj {x y : UInt64} : x * goldenGamma = y * goldenGamma ↔ x = y :=
  mul_goldenGamma_injective.eq_iff

theorem swapHalves_inj {x y : UInt64} : swapHalves x = swapHalves y ↔ x = y :=
  swapHalves_involutive.injective.eq_iff

namespace White

theorem hash_bijective_seed (a b c : UInt64) :
    Function.Bijective fun seed => (⟨seed⟩ : White).hash a b c := by
  refine bijective_of_injective fun x y h => ?_
  simpa only [hash, mix64_inj, mul_goldenGamma_inj, UInt64.xor_left_inj, UInt64.add_left_inj]
    using h

variable (noise : White)

theorem hash_bijective_fst (b c : UInt64) : Function.Bijective fun a => noise.hash a b c := by
  refine bijective_of_injective fun x y h => ?_
  simpa only [hash, mix64_inj, mul_goldenGamma_inj, UInt64.xor_left_inj, UInt64.xor_right_inj,
    UInt64.add_left_inj] using h

theorem hash_bijective_snd (a c : UInt64) : Function.Bijective fun b => noise.hash a b c := by
  refine bijective_of_injective fun x y h => ?_
  simpa only [hash, mix64_inj, mul_goldenGamma_inj, UInt64.xor_left_inj, UInt64.add_right_inj]
    using h

theorem hash_bijective_trd (a b : UInt64) : Function.Bijective fun c => noise.hash a b c := by
  refine bijective_of_injective fun x y h => ?_
  simpa only [hash, mix64_inj, UInt64.xor_right_inj, swapHalves_inj] using h

/-! ## Levels -/

/-- The values a sample can have are those at `n < 2 ^ 24`: the fraction `n / 2 ^ 24`. -/
def level (n : Nat) : Float32 := (UInt64.ofNat n).toFloat32 / 16777216.0

theorem sample_eq_level (a b c : UInt64) :
    noise.sample a b c = level (noise.hash a b c >>> 40).toNat := by
  rw [level, UInt64.ofNat_toNat]
  rfl

/-- Levels are fractions without rounding. -/
theorem value_level (n : Fin (2 ^ 24)) :
    (level n).isFinite = true ∧ Binary32.value (level n) = n / 2 ^ 24 := by
  have h_lt := n.isLt
  have h_nat : (UInt64.ofNat n).toNat = n := by
    rw [UInt64.toNat_ofNat']
    omega
  obtain ⟨h_finite, h_value⟩ := Binary32.value_toFloat32 (n := UInt64.ofNat n) (by omega)
  have h_ordinal := Binary32.ordinal_div h_finite (y := 16777216.0) (by decide) (by decide)
  have h_quotient : (n : ℚ) / 16777216 = ((n : ℕ) : ℤ) * 2 ^ (-24 : ℤ) := by
    rw [zpow_neg, ← div_eq_mul_inv, Int.cast_natCast]
    norm_num
  rw [h_value, h_nat, Binary32.value_16777216, h_quotient] at h_ordinal
  have h_level : |Binary32.ordinal (level n)| < Binary32.top := by
    rw [level, h_ordinal]
    refine Binary32.abs_rounded_lt_of_le (y := 1.0) (by decide) ?_
    rw [← h_quotient, Binary32.value_one, abs_of_nonneg (by positivity), div_le_one (by norm_num)]
    exact_mod_cast h_lt.le
  refine ⟨(Binary32.isFinite_iff _).mpr h_level, ?_⟩
  rw [Binary32.value_eq_of_rounded (by rw [Nat.abs_cast]; omega) (by norm_num) h_level h_ordinal,
    ← h_quotient]
  norm_num

theorem level_inj {n k : Fin (2 ^ 24)} : level n = level k ↔ n = k := by
  refine ⟨fun h => ?_, fun h => h ▸ rfl⟩
  have h_value := congrArg Binary32.value h
  rw [(value_level n).2, (value_level k).2, div_left_inj' (by norm_num)] at h_value
  exact Fin.ext (by exact_mod_cast h_value)

/-! ## Counting -/

theorem shiftRight_lt (h : UInt64) : (h >>> 40).toNat < 2 ^ 24 := by
  rw [toNat_shiftRight_eq_div]
  exact Nat.div_lt_of_lt_mul h.toNat_lt

/-- As many words have one top as have any other. -/
theorem ncard_shiftRight (n : Fin (2 ^ 24)) :
    {h : UInt64 | (h >>> 40).toNat = n}.ncard = 2 ^ 40 := by
  have h_lt := n.isLt
  -- They are the words of one interval.
  have h_interval : {h : UInt64 | (h >>> 40).toNat = n}
      = Set.preimage UInt64.toNat (Finset.Ico (n * 2 ^ 40 : ℕ) ((n + 1) * 2 ^ 40)) := by
    ext h
    have h_shift : (h >>> 40).toNat = h.toNat / 2 ^ 40 := toNat_shiftRight_eq_div h 40
    simp only [Set.mem_ofPred_eq, h_shift, Set.mem_preimage, Finset.coe_Ico, Set.mem_Ico]
    omega
  rw [h_interval, Set.ncard_preimage_of_injective_subset_range
    (fun _ _ => UInt64.toNat_inj.mp), Set.ncard_coe_finset, Nat.card_Ico]
  · omega
  · intro m h_m
    rw [Finset.coe_Ico, Set.mem_Ico] at h_m
    have h_word : (UInt64.ofNat m).toNat = m := by
      rw [UInt64.toNat_ofNat']
      omega
    exact ⟨UInt64.ofNat m, h_word⟩

/-- Every value is a level, and every level is the value at as many words as any other. -/
structure Uniform (f : UInt64 → Float32) : Prop where
  exists_level : ∀ x, ∃ n : Fin (2 ^ 24), f x = level n
  ncard_level : ∀ n : Fin (2 ^ 24), {x | f x = level n}.ncard = 2 ^ 40

theorem uniform_of_bijective {f : UInt64 → UInt64} (hf : Function.Bijective f) :
    Uniform fun x => level (f x >>> 40).toNat := by
  refine ⟨fun x => ⟨⟨_, shiftRight_lt (f x)⟩, rfl⟩, fun n => ?_⟩
  have h_preimage : {x | level (f x >>> 40).toNat = level n}
      = Set.preimage f {h : UInt64 | (h >>> 40).toNat = n} := by
    ext x
    have h_inj := level_inj (n := ⟨_, shiftRight_lt (f x)⟩) (k := n)
    rw [Fin.ext_iff] at h_inj
    exact h_inj
  rw [h_preimage, Set.ncard_preimage_of_injective_subset_range hf.injective, ncard_shiftRight]
  rw [hf.surjective.range_eq]
  exact Set.subset_univ _

end White

/-- A word is given back by its two halves. -/
theorem eq_of_halves_eq {x y : UInt64} (h_low : x.toUInt32 = y.toUInt32)
    (h_high : (x >>> 32).toUInt32 = (y >>> 32).toUInt32) : x = y := by
  have h_shift : ∀ z : UInt64, (z >>> 32).toNat = z.toNat / 2 ^ 32 := fun z =>
    toNat_shiftRight_eq_div z 32
  rw [← UInt32.toNat_inj, UInt64.toNat_toUInt32, UInt64.toNat_toUInt32] at h_low h_high
  rw [h_shift, h_shift] at h_high
  have hx := x.toNat_lt
  have hy := y.toNat_lt
  rw [← UInt64.toNat_inj]
  omega

/-- The seeds of the gradient lattices are the two halves of the mixed seed. -/
theorem Source.seeds_injective : Function.Injective fun seed =>
    ((Source.ofSeed seed).perlin.seed, (Source.ofSeed seed).simplex.seed) := by
  intro x y h
  obtain ⟨h_low, h_high⟩ := Prod.mk.inj h
  exact mix64_injective (eq_of_halves_eq (Int32.ofUInt32.inj h_low) (Int32.ofUInt32.inj h_high))

/-- **White noise is uniform.**  The hash permutes the words in the seed and in each key, while
    the others are fixed.  So for every seed and any two keys, each of the 2²⁴ fractions of
    2²⁴ is the sample at 2⁴⁰ values of the third key, and nothing else is.  Seeds that differ
    give sources that differ in the seed of one of their gradient lattices. -/
theorem white_uniform :
    (∀ a b c, Function.Bijective fun seed => (⟨seed⟩ : White).hash a b c) ∧
    (∀ (noise : White) b c, Function.Bijective fun a => noise.hash a b c) ∧
    (∀ (noise : White) a c, Function.Bijective fun b => noise.hash a b c) ∧
    (∀ (noise : White) a b, Function.Bijective fun c => noise.hash a b c) ∧
    (∀ n : Fin (2 ^ 24), (White.level n).isFinite = true ∧
      Binary32.value (White.level n) = n / 2 ^ 24) ∧
    (∀ (noise : White) b c, White.Uniform fun a => noise.sample a b c) ∧
    (∀ (noise : White) a c, White.Uniform fun b => noise.sample a b c) ∧
    (∀ (noise : White) a b, White.Uniform fun c => noise.sample a b c) ∧
    Function.Injective fun seed =>
      ((Source.ofSeed seed).perlin.seed, (Source.ofSeed seed).simplex.seed) := by
  refine ⟨White.hash_bijective_seed, White.hash_bijective_fst, White.hash_bijective_snd,
    White.hash_bijective_trd, White.value_level, ?_, ?_, ?_, Source.seeds_injective⟩
  · intro noise b c
    simp only [White.sample_eq_level]
    exact White.uniform_of_bijective (noise.hash_bijective_fst b c)
  · intro noise a c
    simp only [White.sample_eq_level]
    exact White.uniform_of_bijective (noise.hash_bijective_snd a c)
  · intro noise a b
    simp only [White.sample_eq_level]
    exact White.uniform_of_bijective (noise.hash_bijective_trd a b)

end Verdure.Noise
