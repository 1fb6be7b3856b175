import Dichromat.Color.Rgb
import Dichromat.Proofs.Exact.Perception

/-!
# Gamma encoding, in exact arithmetic

Decoding a channel is a power (`linearOfGamma_eq`), encoding the inverse power and the nearest whole
number (`gammaOfLinear_eq`). So a channel that is decoded and encoded again is only rounded
(`encodedChannel_decoded`), which leaves whole numbers as they are (`encoded_decoded`), and linear
channels from 0 to 1 are encoded from 0 to 255 (`encodedChannel_mem`).
-/

noncomputable section

namespace Dichromat

namespace Exact

/-! ### The nearest whole number -/

theorem nearestEven_eq_floor_or (x : ℝ) :
    nearestEven x = ⌊x⌋ ∨ (nearestEven x = ⌊x⌋ + 1 ∧ 1 / 2 ≤ Int.fract x) := by
  unfold nearestEven
  split_ifs with hlow hhigh heven
  · exact Or.inl rfl
  · exact Or.inr ⟨rfl, hhigh.le⟩
  · exact Or.inl rfl
  · exact Or.inr ⟨rfl, not_lt.1 hlow⟩

theorem abs_sub_nearestEven_le (x : ℝ) : |x - nearestEven x| ≤ 1 / 2 := by
  have hfract := Int.floor_add_fract x
  have hnonneg := Int.fract_nonneg x
  have hlt := Int.fract_lt_one x
  unfold nearestEven
  split_ifs with hlow hhigh <;> push_cast <;> rw [abs_le] <;> constructor <;> linarith

/-- The only whole number nearer than a half. -/
theorem nearestEven_of_abs_sub_lt {n : ℤ} {x : ℝ} (h : |x - n| < 1 / 2) : nearestEven x = n := by
  have hdist : |(n : ℝ) - nearestEven x| < 1 := by
    calc |(n : ℝ) - nearestEven x| ≤ |(n : ℝ) - x| + |x - nearestEven x| := abs_sub_le _ _ _
      _ < 1 := by
        have := abs_sub_nearestEven_le x
        rw [abs_sub_comm]
        linarith
  have hzero : |n - nearestEven x| < 1 := by exact_mod_cast hdist
  exact (sub_eq_zero.1 (Int.abs_lt_one_iff.1 hzero)).symm

theorem nearestEven_intCast (n : ℤ) : nearestEven n = n :=
  nearestEven_of_abs_sub_lt (by rw [sub_self, abs_zero]; norm_num)

/-- A number between two whole numbers is rounded to one between them. -/
theorem nearestEven_mem {m n : ℤ} {x : ℝ} (h : x ∈ Set.Icc (m : ℝ) n) :
    nearestEven x ∈ Set.Icc m n := by
  have hm : m ≤ ⌊x⌋ := Int.le_floor.2 h.1
  rcases nearestEven_eq_floor_or x with hx | ⟨hx, hfract⟩
  · rw [hx]
    exact ⟨hm, Int.cast_le.1 ((Int.floor_le x).trans h.2)⟩
  · have hlt : (⌊x⌋ : ℝ) < n := by
      have := Int.floor_add_fract x
      linarith [h.2]
    have hn : ⌊x⌋ < n := Int.cast_lt.1 hlt
    rw [hx]
    constructor <;> omega

/-! ### Decoding -/

theorem linearOfGamma_eq {x : ℝ} (h : 0 ≤ x) :
    linearOfGamma x = .ok ((x / 255) ^ model.gamma) := by
  simp only [linearOfGamma, calc_ofNat, calc_div _ (by norm_num : (255 : ℝ) ≠ 0), Calc.gamma]
  exact calc_pow (div_nonneg h (by norm_num)) gamma_pos.le

theorem linearChannel_mem {x : ℝ} (h : x ∈ Set.Icc (0 : ℝ) 255) :
    (x / 255) ^ model.gamma ∈ Set.Icc (0 : ℝ) 1 := by
  have hx₀ : 0 ≤ x / 255 := div_nonneg h.1 (by norm_num)
  have hx₁ : x / 255 ≤ 1 := div_le_one_of_le₀ h.2 (by norm_num)
  exact ⟨Real.rpow_nonneg hx₀ _, Real.rpow_le_one hx₀ hx₁ gamma_pos.le⟩

theorem linearOfGammaColor_eq {r g b : ℝ} (hr : 0 ≤ r) (hg : 0 ≤ g) (hb : 0 ≤ b) :
    linearOfGammaColor [r, g, b] = .ok
      ⟨(r / 255) ^ model.gamma, (g / 255) ^ model.gamma, (b / 255) ^ model.gamma⟩ := by
  have h : Triple.ofReals [r, g, b] = .ok ⟨r, g, b⟩ := rfl
  simp only [linearOfGammaColor, h, ok_bind, Triple.mapM, linearOfGamma_eq hr, linearOfGamma_eq hg,
    linearOfGamma_eq hb]
  rfl

/-! ### Encoding -/

/-- The encoded channel of a linear one. -/
def encodedChannel (x : ℝ) : ℤ := nearestEven (max x 0 ^ model.gammaInverse * 255)

/-- The gamma-encoded channels of linear light. -/
def encoded (c : Triple ℝ) : Triple ℤ := c.map encodedChannel

theorem gammaOfLinear_eq (x : ℝ) : gammaOfLinear x = .ok (encodedChannel x) := by
  simp only [gammaOfLinear, calc_scientific, calc_max, scientific_zero, Calc.gammaInverse]
  rw [calc_pow (le_max_right _ _) gammaInverse_pos.le]
  rfl

theorem gammaOfLinearColor_eq (c : Triple ℝ) : gammaOfLinearColor c = .ok (encoded c) := by
  simp only [gammaOfLinearColor, Triple.mapM, gammaOfLinear_eq, ok_bind]
  rfl

theorem gammaOfLinearColors_eq (palette : List (Triple ℝ)) :
    palette.mapM gammaOfLinearColor = .ok (palette.map encoded) :=
  mapM_eq_map fun c _ => gammaOfLinearColor_eq c

theorem encodedChannel_mem {x : ℝ} (h : x ∈ Set.Icc (0 : ℝ) 1) :
    encodedChannel x ∈ Set.Icc (0 : ℤ) 255 := by
  have h₀ : 0 ≤ x ^ model.gammaInverse := Real.rpow_nonneg h.1 _
  have h₁ : x ^ model.gammaInverse ≤ 1 := Real.rpow_le_one h.1 h.2 gammaInverse_pos.le
  rw [encodedChannel, max_eq_left h.1]
  refine nearestEven_mem ?_
  rw [Int.cast_zero, Int.cast_ofNat]
  constructor <;> linarith

/-- Encoding undoes decoding up to the rounding. -/
theorem encodedChannel_decoded {x : ℝ} (h : 0 ≤ x) :
    encodedChannel ((x / 255) ^ model.gamma) = nearestEven x := by
  have h₀ : 0 ≤ x / 255 := div_nonneg h (by norm_num)
  rw [encodedChannel, max_eq_left (Real.rpow_nonneg h₀ _), gammaInverse_eq,
    Real.rpow_rpow_inv h₀ gamma_pos.ne', div_mul_cancel₀ _ (by norm_num)]

/-- Encoding rounds every channel of a colour that was decoded. -/
theorem toList_encoded {color : List ℝ} {c : Triple ℝ}
    (hcolor : color.length = 3 ∧ ∀ x ∈ color, 0 ≤ x ∧ x ≤ 255)
    (h : linearOfGammaColor color = .ok c) : (encoded c).toList = color.map nearestEven := by
  obtain ⟨hlength, hrange⟩ := hcolor
  obtain ⟨r, g, b, rfl⟩ := List.length_eq_three.1 hlength
  have hr : 0 ≤ r := (hrange r (by simp)).1
  have hg : 0 ≤ g := (hrange g (by simp)).1
  have hb : 0 ≤ b := (hrange b (by simp)).1
  rw [linearOfGammaColor_eq hr hg hb] at h
  obtain rfl := Except.ok.inj h
  simp only [encoded, Triple.map, Triple.toList, List.map_cons, List.map_nil,
    encodedChannel_decoded hr, encodedChannel_decoded hg, encodedChannel_decoded hb]

theorem map_nearestEven_intCast (rows : List (List ℤ)) :
    ((rows.map fun row => row.map (Int.cast : ℤ → ℝ)).map fun color => color.map nearestEven) =
      rows := by
  simp [Function.comp_def, nearestEven_intCast]

theorem abs_sub_encodedChannel_le {x : ℝ} (h : 0 ≤ x) :
    |x ^ model.gammaInverse * 255 - encodedChannel x| ≤ 1 / 2 := by
  rw [encodedChannel, max_eq_left h]
  exact abs_sub_nearestEven_le _

/-! ### Reading back -/

/-- The linear channels of an encoded colour. -/
def decoded (c : Triple ℤ) : Triple ℝ := c.map fun n : ℤ => ((n : ℝ) / 255) ^ model.gamma

theorem decoded_mem {c : Triple ℤ} {k : Channel} (h : c.get k ∈ Set.Icc (0 : ℤ) 255) :
    (decoded c).get k ∈ Set.Icc (0 : ℝ) 1 := by
  rw [decoded, Triple.get_map]
  exact linearChannel_mem ⟨Int.cast_nonneg h.1, by exact_mod_cast h.2⟩

theorem linearOfGammaColor_toList {c : Triple ℤ} (h : ∀ k, 0 ≤ c.get k) :
    linearOfGammaColor (c.toList.map (Int.cast : ℤ → ℝ)) = .ok (decoded c) :=
  linearOfGammaColor_eq (Int.cast_nonneg (h .red)) (Int.cast_nonneg (h .green))
    (Int.cast_nonneg (h .blue))

theorem linearOfGammaColors_toList {palette : List (Triple ℤ)}
    (h : ∀ c ∈ palette, ∀ k, 0 ≤ c.get k) :
    (palette.map fun c => c.toList.map (Int.cast : ℤ → ℝ)).mapM linearOfGammaColor =
      .ok (palette.map decoded) := by
  rw [mapM_eq_ok_iff, List.forall₂_map_left_iff, List.forall₂_map_right_iff]
  exact List.forall₂_same.2 fun c hc => linearOfGammaColor_toList (h c hc)

theorem encoded_decoded {c : Triple ℤ} (h : ∀ k, 0 ≤ c.get k) : encoded (decoded c) = c := by
  refine Triple.ext_get fun k => ?_
  rw [encoded, decoded, Triple.get_map, Triple.get_map,
    encodedChannel_decoded (Int.cast_nonneg (h k)), nearestEven_intCast]

end Exact

end Dichromat

end
