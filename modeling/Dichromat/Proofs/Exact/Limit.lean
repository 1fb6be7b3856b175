import Dichromat.Proofs.Exact.ToLinear

/-!
# The intensity limit, in exact arithmetic

A hue and a purity fix the linear channels up to a scale (`chroma`) and an intensity that is not
noise fixes the scale, so the highest channel of an absolute intensity is the power of its ratio to
one intensity (`highest_linear_absolute`). That intensity, `limitOf`, is what `intensityLimit`
computes from the channels of the lowest limit (`intensityLimit_eq`); the gamut ends there
(`highest_linear_le_one_iff`).
-/

noncomputable section

namespace Dichromat

namespace Exact

/-! ### Channels up to their scale -/

/-- Only the first anchor gives light, whatever the intensity is. -/
def Sole (r p : ℝ) : Prop := shareOf r < model.smallest ∧ 1 - model.smallest < p

instance (r p : ℝ) : Decidable (Sole r p) := inferInstanceAs (Decidable (_ ∧ _))

theorem degenerate_iff_sole {r p level : ℝ} (h : model.smallest ≤ level) :
    Degenerate r p level ↔ Sole r p :=
  or_iff_left (not_lt.2 h)

/-- The channels of a hue and purity up to their scale. -/
def chroma (r p : ℝ) : Triple ℝ := if Sole r p then black.set (firstAnchor r) 1 else ratios r p

/-- The highest intensity at which a hue and purity stay within RGB. -/
def limitOf (r p : ℝ) : ℝ :=
  (brightness (chroma r p) / highest (chroma r p)) ^ model.gammaInverse

section Chroma

variable {r p : ℝ} (hp₀ : 0 ≤ p) (hp₁ : p ≤ 1)

include hp₀ hp₁

theorem chroma_nonneg (k : Channel) : 0 ≤ (chroma r p).get k := by
  unfold chroma
  split_ifs
  · exact get_set_black_nonneg zero_le_one _ k
  · exact ratios_nonneg hp₀ hp₁ k

theorem brightness_chroma_pos : 0 < brightness (chroma r p) := by
  unfold chroma
  split_ifs
  · rw [brightness_set_black _ zero_le_one, mul_one]
    exact sensitivity_pos _
  · exact brightness_ratios_pos hp₀ hp₁

theorem highest_chroma_pos : 0 < highest (chroma r p) :=
  (brightness_chroma_pos hp₀ hp₁).trans_le (brightness_le_highest (chroma_nonneg hp₀ hp₁))

/-! ### The scale of an intensity -/

omit hp₀ hp₁ in
theorem linear_absolute {i : ℝ} (hi : model.smallest ≤ i) : linear r p (.absolute i) =
    (chroma r p).map (i ^ model.gamma / brightness (chroma r p) * ·) := by
  have hdeg : Degenerate r p (Level.absolute i).value ↔ Sole r p := degenerate_iff_sole hi
  unfold linear chroma
  by_cases h : Sole r p
  · rw [if_pos (hdeg.2 h), if_pos h, map_mul_set_black, brightness_set_black _ zero_le_one, mul_one,
      mul_one, soleLight, max_eq_left (smallest_pos.le.trans hi)]
  · rw [if_neg (mt hdeg.1 h), if_neg h, secondLight]

theorem linear_relative {j : ℝ} (hj : model.smallest ≤ j) : linear r p (.relative j) =
    (chroma r p).map (j ^ model.gamma / highest (chroma r p) * ·) := by
  have hdeg : Degenerate r p (Level.relative j).value ↔ Sole r p := degenerate_iff_sole hj
  unfold linear chroma
  by_cases h : Sole r p
  · rw [if_pos (hdeg.2 h), if_pos h, map_mul_set_black, highest_set_black _ zero_le_one, div_one,
      mul_one, soleLight, max_eq_left (smallest_pos.le.trans hj)]
  · rw [if_neg (mt hdeg.1 h), if_neg h, highest_ratios hp₀ hp₁ (light_pos hp₀ hp₁ (mt hdeg.1 h)),
      secondLight]
    split_ifs <;> simp

/-! ### The limit -/

theorem limitOf_pos : 0 < limitOf r p :=
  Real.rpow_pos_of_pos (div_pos (brightness_chroma_pos hp₀ hp₁) (highest_chroma_pos hp₀ hp₁)) _

theorem limitOf_rpow : limitOf r p ^ model.gamma =
    brightness (chroma r p) / highest (chroma r p) :=
  rpow_gammaInverse_rpow_gamma
    (div_pos (brightness_chroma_pos hp₀ hp₁) (highest_chroma_pos hp₀ hp₁)).le

theorem limitOf_le_one : limitOf r p ≤ 1 :=
  Real.rpow_le_one
    (div_pos (brightness_chroma_pos hp₀ hp₁) (highest_chroma_pos hp₀ hp₁)).le
    (div_le_one_of_le₀ (brightness_le_highest (chroma_nonneg hp₀ hp₁))
      (highest_chroma_pos hp₀ hp₁).le)
    gammaInverse_pos.le

theorem lowestLimit_le_limitOf : model.lowestLimit ≤ limitOf r p := by
  rw [lowestLimit_eq]
  refine Real.rpow_le_rpow (sensitivity_pos _).le ?_ gammaInverse_pos.le
  rw [le_div_iff₀ (highest_chroma_pos hp₀ hp₁)]
  exact blue_le_brightness (chroma_nonneg hp₀ hp₁)

/-- The highest channel tells how far an intensity is from the limit. -/
theorem highest_linear_absolute {i : ℝ} (hi : model.smallest ≤ i) :
    highest (linear r p (.absolute i)) = (i / limitOf r p) ^ model.gamma := by
  have hb := brightness_chroma_pos (r := r) hp₀ hp₁
  have hi₀ : 0 ≤ i := smallest_pos.le.trans hi
  rw [linear_absolute hi, highest_map_mul (div_nonneg (Real.rpow_nonneg hi₀ _) hb.le),
    Real.div_rpow hi₀ (limitOf_pos hp₀ hp₁).le, limitOf_rpow hp₀ hp₁, div_div_eq_mul_div,
    div_mul_eq_mul_div]

/-- The channels of the lowest limit, rescaled, give the limit. -/
theorem intensityLimit_eq : intensityLimit r p = .ok (limitOf r p) := by
  have hl : 0 < limitOf r p := limitOf_pos hp₀ hp₁
  have hlow : 0 < model.lowestLimit := smallest_pos.trans_le smallest_le_lowestLimit
  obtain ⟨k, hk, hk'⟩ := highest_eq (linear r p (.absolute model.lowestLimit))
  rw [highest_linear_absolute hp₀ hp₁ smallest_le_lowestLimit] at hk'
  have hratio : 0 < model.lowestLimit / limitOf r p := div_pos hlow hl
  rw [intensityLimit, linearOfHue_eq hp₀ hp₁, ok_bind, hk, ok_bind, Triple.term, hk',
    Calc.gammaInverse, calc_pow (Real.rpow_nonneg hratio.le _) gammaInverse_pos.le,
    rpow_gamma_rpow_gammaInverse hratio.le, Calc.lowestLimit, calc_div _ hratio.ne',
    div_div_cancel₀ hlow.ne']

omit hp₀ hp₁ in
/-- Light that counts as noise stays within RGB. -/
theorem highest_linear_of_lt {i : ℝ} (hi₀ : 0 ≤ i) (hi : i < model.smallest) :
    highest (linear r p (.absolute i)) ≤ 1 := by
  have hs := sensitivity_pos (firstAnchor r)
  have hdeg : Degenerate r p (Level.absolute i).value := Or.inr hi
  have hsole : 0 ≤ soleLight r (.absolute i) := soleLight_nonneg r _
  rw [linear, if_pos hdeg, highest_set_black _ hsole, soleLight, max_eq_left hi₀, div_le_one hs]
  calc i ^ model.gamma
      ≤ model.lowestLimit ^ model.gamma :=
        Real.rpow_le_rpow hi₀ (hi.le.trans smallest_le_lowestLimit) gamma_pos.le
    _ = model.normalSensitivity.get .blue := by
        rw [lowestLimit_eq, rpow_gammaInverse_rpow_gamma (sensitivity_pos _).le]
    _ ≤ model.normalSensitivity.get (firstAnchor r) := sensitivity_blue_le _

/-- Up to the limit an intensity stays within RGB, and beyond it does not. -/
theorem highest_linear_le_one_iff {i : ℝ} (hi : 0 ≤ i) :
    highest (linear r p (.absolute i)) ≤ 1 ↔ i ≤ limitOf r p := by
  have hl := limitOf_pos (r := r) hp₀ hp₁
  rcases lt_or_ge i model.smallest with hlt | hge
  · have hlimit : i ≤ limitOf r p :=
      (hlt.le.trans smallest_le_lowestLimit).trans (lowestLimit_le_limitOf hp₀ hp₁)
    exact iff_of_true (highest_linear_of_lt hi hlt) hlimit
  · have hratio : (i / limitOf r p) ^ model.gamma ≤ 1 ↔ i / limitOf r p ≤ 1 := by
      simpa only [Real.one_rpow] using
        Real.rpow_le_rpow_iff (div_nonneg hi hl.le) zero_le_one gamma_pos
    rw [highest_linear_absolute hp₀ hp₁ hge, hratio, div_le_one hl]

theorem highest_linear_limitOf : highest (linear r p (.absolute (limitOf r p))) = 1 := by
  have hl := limitOf_pos (r := r) hp₀ hp₁
  rw [highest_linear_absolute hp₀ hp₁
      (smallest_le_lowestLimit.trans (lowestLimit_le_limitOf hp₀ hp₁)),
    div_self hl.ne', Real.one_rpow]

end Chroma

end Exact

end Dichromat

end
