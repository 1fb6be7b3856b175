import Dichromat.Proofs.Exact.Encode

/-!
# The gamma codec

Encoded channels are whole numbers, so decoding and encoding again rounds (`nearestEven_eq_iff`),
and encoding never swaps two channels (`monotone_encodedChannel`). The other way round a linear
channel loses at most half a step of the encoded range, which decoding stretches by no more than the
exponent (`abs_rpow_gamma_sub_le`): `gamma_encoding_rounds` puts all of it together.
-/

noncomputable section

namespace Dichromat

namespace Exact

/-! ### Rounding -/

/-- A whole number nearest to a real one, and even if there are two of them. -/
structure RoundsTo (x : ℝ) (n : ℤ) : Prop where
  near : |x - n| ≤ 1 / 2
  even_of_half : |x - n| = 1 / 2 → Even n

theorem roundsTo_nearestEven (x : ℝ) : RoundsTo x (nearestEven x) := by
  refine ⟨abs_sub_nearestEven_le x, fun hhalf => ?_⟩
  have hfract := Int.floor_add_fract x
  have hnonneg := Int.fract_nonneg x
  have hlt := Int.fract_lt_one x
  unfold nearestEven at hhalf ⊢
  split_ifs at hhalf ⊢ with hlow hhigh heven
  · rw [Int.self_sub_floor, abs_of_nonneg hnonneg] at hhalf
    exact absurd hhalf hlow.ne
  · have hdist : |x - (⌊x⌋ + 1 : ℤ)| = 1 - Int.fract x := by
      rw [abs_sub_comm, abs_of_nonneg] <;> push_cast <;> linarith
    linarith
  · exact Int.even_iff.2 heven
  · exact Int.even_add_one.2 fun h => heven (Int.even_iff.1 h)

/-- Whole numbers that a number is rounded to are less than 1 apart, or a half from it on either
side, where only one is even. -/
theorem RoundsTo.unique {x : ℝ} {m n : ℤ} (hm : RoundsTo x m) (hn : RoundsTo x n) : m = n := by
  have hdist : |(m : ℝ) - n| ≤ |x - m| + |x - n| := by
    rw [abs_sub_comm x m]
    exact abs_sub_le _ _ _
  by_contra hne
  have hone : (1 : ℝ) ≤ |(m : ℝ) - n| := by exact_mod_cast Int.one_le_abs (sub_ne_zero.2 hne)
  have hle : |(m : ℝ) - n| ≤ 1 := by linarith [hm.near, hn.near]
  have hm' : Even m := hm.even_of_half (by linarith [hm.near, hn.near])
  have hn' : Even n := hn.even_of_half (by linarith [hm.near, hn.near])
  have hgap : |m - n| = 1 := by exact_mod_cast le_antisymm hle hone
  have heven : Even |m - n| := even_abs.2 (hm'.sub hn')
  rw [hgap] at heven
  exact Int.not_even_one heven

theorem nearestEven_eq_iff {x : ℝ} {n : ℤ} : nearestEven x = n ↔ RoundsTo x n :=
  ⟨fun h => h ▸ roundsTo_nearestEven x, (roundsTo_nearestEven x).unique⟩

/-- Numbers in order that were rounded the other way would both be the half between. -/
theorem monotone_nearestEven : Monotone nearestEven := by
  intro x y h
  by_contra! hlt
  have hgap : (nearestEven y : ℝ) + 1 ≤ nearestEven x := by exact_mod_cast hlt
  have hx := abs_le.1 (abs_sub_nearestEven_le x)
  have hy := abs_le.1 (abs_sub_nearestEven_le y)
  have heq : x = y := le_antisymm h (by linarith)
  rw [heq] at hlt
  exact lt_irrefl _ hlt

theorem monotone_encodedChannel : Monotone encodedChannel := by
  intro x y h
  refine monotone_nearestEven (mul_le_mul_of_nonneg_right ?_ (by norm_num))
  exact Real.rpow_le_rpow (le_max_right _ _) (max_le_max_right 0 h) gammaInverse_pos.le

/-! ### The slope of decoding -/

theorem gamma_eq : model.gamma = 2.2 := rfl

/-- From 0 to 1 decoding is nowhere steeper than at 1. -/
theorem abs_rpow_gamma_sub_le {a b : ℝ} (ha : a ∈ Set.Icc (0 : ℝ) 1) (hb : b ∈ Set.Icc (0 : ℝ) 1) :
    |a ^ model.gamma - b ^ model.gamma| ≤ model.gamma * |a - b| := by
  have hone : 1 ≤ model.gamma := by
    rw [gamma_eq]
    norm_num
  have hslope : ∀ x ∈ Set.Icc (0 : ℝ) 1, ‖model.gamma * x ^ (model.gamma - 1)‖ ≤ model.gamma := by
    intro x hx
    have hpow : x ^ (model.gamma - 1) ≤ 1 := Real.rpow_le_one hx.1 hx.2 (sub_nonneg.2 hone)
    rw [Real.norm_of_nonneg (mul_nonneg gamma_pos.le (Real.rpow_nonneg hx.1 _))]
    exact mul_le_of_le_one_right gamma_pos.le hpow
  exact Convex.norm_image_sub_le_of_norm_hasDerivWithin_le
    (fun x _ => (Real.hasDerivAt_rpow_const (Or.inr hone)).hasDerivWithinAt) hslope
    (convex_Icc 0 1) hb ha

/-- What rounding to an encoded channel loses of a linear one. -/
theorem abs_decoded_encodedChannel_sub_le {x : ℝ} (hx : x ∈ Set.Icc (0 : ℝ) 1) :
    |((encodedChannel x : ℝ) / 255) ^ model.gamma - x| ≤ 1.1 / 255 := by
  obtain ⟨hn₀, hn₁⟩ := encodedChannel_mem hx
  have hn : (encodedChannel x : ℝ) / 255 ∈ Set.Icc (0 : ℝ) 1 :=
    ⟨div_nonneg (Int.cast_nonneg hn₀) (by norm_num),
      div_le_one_of_le₀ (by exact_mod_cast hn₁) (by norm_num)⟩
  have hy : x ^ model.gammaInverse ∈ Set.Icc (0 : ℝ) 1 :=
    ⟨Real.rpow_nonneg hx.1 _, Real.rpow_le_one hx.1 hx.2 gammaInverse_pos.le⟩
  -- half a step of the encoded range
  have hstep : |(encodedChannel x : ℝ) / 255 - x ^ model.gammaInverse| ≤ 1 / 2 / 255 := by
    have hround := abs_sub_encodedChannel_le hx.1
    rw [abs_le] at hround ⊢
    constructor <;> linarith
  calc |((encodedChannel x : ℝ) / 255) ^ model.gamma - x|
      = |((encodedChannel x : ℝ) / 255) ^ model.gamma -
          (x ^ model.gammaInverse) ^ model.gamma| := by
        rw [rpow_gammaInverse_rpow_gamma hx.1]
    _ ≤ model.gamma * |(encodedChannel x : ℝ) / 255 - x ^ model.gammaInverse| :=
        abs_rpow_gamma_sub_le hn hy
    _ ≤ model.gamma * (1 / 2 / 255) := mul_le_mul_of_nonneg_left hstep gamma_pos.le
    _ = 1.1 / 255 := by
        rw [gamma_eq]
        norm_num

end Exact

open Exact

/-- Decoding a channel and encoding it again rounds it, a half to the even neighbour. Encoding keeps
the order of all linear channels, those out of range included; those from 0 to 1 are encoded from 0
to 255, and decoded again they are off by no more than what rounding makes of the slope at 1. -/
theorem gamma_encoding_rounds :
    (∀ v : ℝ, 0 ≤ v → ∃ x n, linearOfGamma v = .ok x ∧ gammaOfLinear x = .ok n ∧ RoundsTo v n) ∧
    (∀ x y : ℝ, x ≤ y → ∃ m n, gammaOfLinear x = .ok m ∧ gammaOfLinear y = .ok n ∧ m ≤ n) ∧
    ∀ x ∈ Set.Icc (0 : ℝ) 1, ∃ n y, gammaOfLinear x = .ok n ∧ n ∈ Set.Icc (0 : ℤ) 255 ∧
      linearOfGamma (n : ℝ) = .ok y ∧ |y - x| ≤ 1.1 / 255 := by
  refine ⟨fun v hv => ?_, fun x y h => ?_, fun x hx => ?_⟩
  · refine ⟨_, _, linearOfGamma_eq hv, gammaOfLinear_eq _, ?_⟩
    rw [encodedChannel_decoded hv]
    exact roundsTo_nearestEven v
  · exact ⟨_, _, gammaOfLinear_eq x, gammaOfLinear_eq y, monotone_encodedChannel h⟩
  · have hn := encodedChannel_mem hx
    exact ⟨_, _, gammaOfLinear_eq x, hn, linearOfGamma_eq (Int.cast_nonneg hn.1),
      abs_decoded_encodedChannel_sub_le hx⟩

/-- A channel in the middle between two whole numbers, an intensity below black beside a half, and
the half alone. -/
theorem gamma_encoding_rounds_half :
    (∃ x, linearOfGamma (5 / 2 : ℝ) = .ok x ∧ gammaOfLinear x = .ok 2) ∧
    (∃ m n, gammaOfLinear (-1 : ℝ) = .ok m ∧ gammaOfLinear (1 / 2 : ℝ) = .ok n ∧ m ≤ n) ∧
    ∃ n y, gammaOfLinear (1 / 2 : ℝ) = .ok n ∧ n ∈ Set.Icc (0 : ℤ) 255 ∧
      linearOfGamma (n : ℝ) = .ok y ∧ |y - 1 / 2| ≤ 1.1 / 255 := by
  obtain ⟨hrounds, hmonotone, hnear⟩ := gamma_encoding_rounds
  have hhalf : (1 / 2 : ℝ) ∈ Set.Icc (0 : ℝ) 1 := by constructor <;> norm_num
  refine ⟨?_, hmonotone _ _ (by norm_num), hnear _ hhalf⟩
  obtain ⟨x, n, hx, hn, hround⟩ := hrounds (5 / 2) (by norm_num)
  have htwo : RoundsTo (5 / 2 : ℝ) 2 := by
    refine ⟨?_, fun _ => even_two⟩
    norm_num [abs_of_nonneg]
  obtain rfl := hround.unique htwo
  exact ⟨x, hx, hn⟩

end Dichromat

end
