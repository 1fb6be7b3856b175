import Dichromat.Proofs.Exact.Arith

/-!
# The constants as real numbers

The signs and sizes of the constants that the conversions rely on. Exponents and sensitivities are
positive, inverse exponents are the inverses, and white has the brightness 1.
-/

noncomputable section

namespace Dichromat

namespace Exact

/-- The constants of the perception model as real numbers. -/
abbrev model : Perception ℝ := perception

theorem gamma_pos : 0 < model.gamma := by
  show (0 : ℝ) < 2.2
  norm_num

theorem gamma_le_three : model.gamma ≤ 3 := by
  show (2.2 : ℝ) ≤ 3
  norm_num

theorem gammaInverse_eq : model.gammaInverse = model.gamma⁻¹ := by
  show (1.0 / 2.2 : ℝ) = 2.2⁻¹
  norm_num

theorem gammaInverse_pos : 0 < model.gammaInverse := by
  rw [gammaInverse_eq]
  exact inv_pos.2 gamma_pos

theorem rpow_gammaInverse_rpow_gamma {x : ℝ} (hx : 0 ≤ x) :
    (x ^ model.gammaInverse) ^ model.gamma = x := by
  rw [gammaInverse_eq, Real.rpow_inv_rpow hx gamma_pos.ne']

theorem rpow_gamma_rpow_gammaInverse {x : ℝ} (hx : 0 ≤ x) :
    (x ^ model.gamma) ^ model.gammaInverse = x := by
  rw [gammaInverse_eq, Real.rpow_rpow_inv hx gamma_pos.ne']

theorem smallest_pos : 0 < model.smallest := by
  show (0 : ℝ) < 0.95 * (1.0 / 255.0) ^ (2.2 : ℝ)
  positivity

theorem smallest_le_sq : model.smallest ≤ (1 / 255) ^ 2 := by
  have h : (1.0 / 255.0 : ℝ) ^ (2.2 : ℝ) ≤ (1.0 / 255.0) ^ (2 : ℝ) :=
    Real.rpow_le_rpow_of_exponent_ge (by norm_num) (by norm_num) (by norm_num)
  rw [Real.rpow_two] at h
  show 0.95 * (1.0 / 255.0 : ℝ) ^ (2.2 : ℝ) ≤ (1 / 255) ^ 2
  norm_num at h ⊢
  linarith

theorem smallest_le : model.smallest ≤ 1 / 255 := smallest_le_sq.trans (by norm_num)

theorem smallest_lt_half : model.smallest < 1 / 2 := smallest_le.trans_lt (by norm_num)

theorem mixing_pos (k : Channel) : 0 < model.mixing.get k := by
  cases k
  · show (0 : ℝ) < 1.2
    norm_num
  · show (0 : ℝ) < 1.6
    norm_num
  · show (0 : ℝ) < 0.9
    norm_num

theorem mixingInverse_eq (k : Channel) : model.mixingInverse.get k = (model.mixing.get k)⁻¹ := by
  cases k
  · show (1.0 / 1.2 : ℝ) = 1.2⁻¹
    norm_num
  · show (1.0 / 1.6 : ℝ) = 1.6⁻¹
    norm_num
  · show (1.0 / 0.9 : ℝ) = 0.9⁻¹
    norm_num

theorem mixingInverse_pos (k : Channel) : 0 < model.mixingInverse.get k := by
  rw [mixingInverse_eq]
  exact inv_pos.2 (mixing_pos k)

theorem tinting_pos (k : Channel) : 0 < model.tinting.get k := by
  cases k
  · show (0 : ℝ) < 0.6
    norm_num
  · show (0 : ℝ) < 1.0
    norm_num
  · show (0 : ℝ) < 0.6
    norm_num

theorem tinting_le_one (k : Channel) : model.tinting.get k ≤ 1 := by
  cases k
  · show (0.6 : ℝ) ≤ 1
    norm_num
  · show (1.0 : ℝ) ≤ 1
    norm_num
  · show (0.6 : ℝ) ≤ 1
    norm_num

theorem sensitivity_pos (k : Channel) : 0 < model.normalSensitivity.get k := by
  cases k
  · show (0 : ℝ) < 15.0 / (15.0 * 0.15 + 20.0 + 5.0 * 0.15)
    norm_num
  · show (0 : ℝ) < 20.0 / (15.0 * 0.15 + 20.0 + 5.0 * 0.15)
    norm_num
  · show (0 : ℝ) < 5.0 / (15.0 * 0.15 + 20.0 + 5.0 * 0.15)
    norm_num

/-- Blue is the primary that the eye feels least. -/
theorem sensitivity_blue_le (k : Channel) :
    model.normalSensitivity.get .blue ≤ model.normalSensitivity.get k := by
  show (5.0 / (15.0 * 0.15 + 20.0 + 5.0 * 0.15) : ℝ) ≤ _
  cases k
  · show _ ≤ (15.0 / (15.0 * 0.15 + 20.0 + 5.0 * 0.15) : ℝ)
    norm_num
  · show _ ≤ (20.0 / (15.0 * 0.15 + 20.0 + 5.0 * 0.15) : ℝ)
    norm_num
  · exact le_rfl

/-- Green is the primary that the eye feels most. -/
theorem sensitivity_le_green (k : Channel) :
    model.normalSensitivity.get k ≤ model.normalSensitivity.get .green := by
  show _ ≤ (20.0 / (15.0 * 0.15 + 20.0 + 5.0 * 0.15) : ℝ)
  cases k
  · show (15.0 / (15.0 * 0.15 + 20.0 + 5.0 * 0.15) : ℝ) ≤ _
    norm_num
  · exact le_rfl
  · show (5.0 / (15.0 * 0.15 + 20.0 + 5.0 * 0.15) : ℝ) ≤ _
    norm_num

theorem middleShare_eq : model.middleShare = model.dimmestShare := rfl

theorem dimmestShare_pos : 0 < model.dimmestShare := by
  show (0 : ℝ) < 0.15
  norm_num

theorem dimmestShare_lt_one : model.dimmestShare < 1 := by
  show (0.15 : ℝ) < 1
  norm_num

/-- The brightness of white. -/
theorem brightness_white : model.dimmestShare * (model.normalSensitivity.get .red +
      model.normalSensitivity.get .green + model.normalSensitivity.get .blue) +
    (1 - model.dimmestShare) * model.normalSensitivity.get .green = 1 := by
  show (0.15 : ℝ) * (15.0 / (15.0 * 0.15 + 20.0 + 5.0 * 0.15) +
      20.0 / (15.0 * 0.15 + 20.0 + 5.0 * 0.15) + 5.0 / (15.0 * 0.15 + 20.0 + 5.0 * 0.15)) +
    (1 - 0.15) * (20.0 / (15.0 * 0.15 + 20.0 + 5.0 * 0.15)) = 1
  norm_num

/-- The lowest limit is the intensity of blue light. -/
theorem lowestLimit_eq :
    model.lowestLimit = model.normalSensitivity.get .blue ^ model.gammaInverse := rfl

theorem smallest_le_lowestLimit : model.smallest ≤ model.lowestLimit := by
  have h : (5.0 / (15.0 * 0.15 + 20.0 + 5.0 * 0.15) : ℝ) ^ (1 : ℝ) ≤
      (5.0 / (15.0 * 0.15 + 20.0 + 5.0 * 0.15)) ^ (1.0 / 2.2 : ℝ) :=
    Real.rpow_le_rpow_of_exponent_ge (by norm_num) (by norm_num) (by norm_num)
  rw [Real.rpow_one] at h
  calc model.smallest ≤ 1 / 255 := smallest_le
    _ ≤ 5.0 / (15.0 * 0.15 + 20.0 + 5.0 * 0.15) := by norm_num
    _ ≤ model.lowestLimit := h

end Exact

end Dichromat

end
