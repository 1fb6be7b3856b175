import Dichromat.Proofs.Exact.OfLinear

/-!
# To linear RGB, in exact arithmetic

The linear channels of a hue and purity at an intensity as a plain function of real numbers
(`linear`): in the sector of the hue, the channels relative to the second anchor (`ratios`), scaled
to the intensity. The computation gives these values for every purity from 0 to 1, whatever the hue
and the intensity (`linearOfHue_eq`).
-/

noncomputable section

namespace Dichromat

namespace Exact

/-! ### Sectors -/

/-- The order of the channels in the sector of a hue. -/
def sector (r : ℝ) : Ranking :=
  if r ≤ 1 / 3 then (if r < 1 / 6 then ⟨.blue, .green, .red⟩ else ⟨.blue, .red, .green⟩)
  else if r ≤ 2 / 3 then (if r ≤ 1 / 2 then ⟨.red, .blue, .green⟩ else ⟨.red, .green, .blue⟩)
  else if r < 5 / 6 then ⟨.green, .red, .blue⟩ else ⟨.green, .blue, .red⟩

theorem hueOrder_eq (r : ℝ) : hueOrder r = .ok (sector r) := by
  have h₁ : (2 : ℝ) / 6 = 1 / 3 := by norm_num
  have h₂ : (4 : ℝ) / 6 = 2 / 3 := by norm_num
  have h₃ : (3 : ℝ) / 6 = 1 / 2 := by norm_num
  unfold sector
  simp only [hueOrder, calc_le, calc_lt, calc_ratio, ok_bind, decide_eq_true_eq, Int.cast_ofNat,
    Int.cast_one, Nat.cast_ofNat, h₁, h₂, h₃]
  split_ifs <;> rfl

/-- The anchors of the sector of a hue. -/
def firstAnchor (r : ℝ) : Channel := (sector r).lowest.anchors.1

/-- The second anchor of a hue. -/
def secondAnchor (r : ℝ) : Channel := (sector r).lowest.anchors.2

/-- The place of a hue between its two anchors, from 0 to 1. -/
def place (r : ℝ) : ℝ := min (max (3 * r - (firstAnchor r).index) 0) 1

/-- The share of the second anchor in the light of a hue. -/
def shareOf (r : ℝ) : ℝ := unbend (firstAnchor r) (secondAnchor r) (place r)

theorem place_nonneg (r : ℝ) : 0 ≤ place r := (clamp_mem _).1

theorem place_le_one (r : ℝ) : place r ≤ 1 := (clamp_mem _).2

theorem shareOf_nonneg (r : ℝ) : 0 ≤ shareOf r := unbend_nonneg (place_nonneg r)

theorem shareOf_le_one (r : ℝ) : shareOf r ≤ 1 := unbend_le_one (place_nonneg r) (place_le_one r)

theorem anchorShare_eq (r : ℝ) :
    anchorShare r (firstAnchor r) (secondAnchor r) = .ok (shareOf r) := by
  have h₀ := place_nonneg r
  unfold shareOf unbend bow place at *
  simp only [anchorShare, calc_ofNat, calc_mul, calc_whole, calc_sub, calc_scientific, calc_max,
    calc_min, calc_lt, calc_ratio, ok_bind, decide_eq_true_eq, calc_one, Calc.mixing,
    Calc.mixingInverse, Int.cast_natCast, Int.cast_one, Nat.cast_ofNat, scientific_zero,
    scientific_one]
  by_cases hd : min (max (3 * r - (firstAnchor r).index) 0) 1 < 1 / 2
  · rw [if_pos hd, if_pos hd, calc_pow (by linarith) (mixingInverse_pos _).le,
      calc_div _ two_ne_zero]
  · rw [if_neg hd, if_neg hd, calc_pow (by linarith) (mixing_pos _).le, calc_div _ two_ne_zero,
      calc_add]

/-- In each sector the anchor with more of the light is the highest channel, the other the middle
one. -/
theorem sector_eq (r : ℝ) :
    (sector r = ⟨(sector r).lowest, firstAnchor r, secondAnchor r⟩ ∧ 1 / 2 ≤ shareOf r) ∨
      (sector r = ⟨(sector r).lowest, secondAnchor r, firstAnchor r⟩ ∧ shareOf r ≤ 1 / 2) := by
  have lower (h : 3 * r - (firstAnchor r).index ≤ 1 / 2) : shareOf r ≤ 1 / 2 :=
    unbend_le_half (place_nonneg r) (min_le_of_left_le (max_le h (by norm_num)))
  have upper (h : 1 / 2 ≤ 3 * r - (firstAnchor r).index) : 1 / 2 ≤ shareOf r :=
    half_le_unbend (le_min (le_max_of_le_left h) (by norm_num))
  unfold firstAnchor at lower upper
  unfold firstAnchor secondAnchor
  unfold sector at *
  split_ifs at * with h₁ h₂ h₃ h₄ h₅
  · refine Or.inr ⟨rfl, lower ?_⟩
    simp only [Channel.anchors, Channel.index, CharP.cast_eq_zero]
    linarith
  · refine Or.inl ⟨rfl, upper ?_⟩
    simp only [Channel.anchors, Channel.index, CharP.cast_eq_zero]
    linarith
  · refine Or.inr ⟨rfl, lower ?_⟩
    simp only [Channel.anchors, Channel.index, Nat.cast_one]
    linarith
  · refine Or.inl ⟨rfl, upper ?_⟩
    simp only [Channel.anchors, Channel.index, Nat.cast_one]
    linarith
  · refine Or.inr ⟨rfl, lower ?_⟩
    simp only [Channel.anchors, Channel.index, Nat.cast_ofNat]
    linarith
  · refine Or.inl ⟨rfl, upper ?_⟩
    simp only [Channel.anchors, Channel.index, Nat.cast_ofNat]
    linarith

/-- The first anchor is the highest channel as long as the second has less light. -/
theorem sector_highest (r : ℝ) :
    ((sector r).highest = secondAnchor r ∧ 1 / 2 ≤ shareOf r) ∨
      ((sector r).highest = firstAnchor r ∧ firstAnchor r ≠ secondAnchor r ∧
        shareOf r ≤ 1 / 2) := by
  rcases sector_eq r with ⟨h, hs⟩ | ⟨h, hs⟩
  · exact Or.inl ⟨congrArg Ranking.highest h, hs⟩
  · exact Or.inr ⟨congrArg Ranking.highest h, Channel.fst_anchors_ne_snd _, hs⟩

/-! ### Channels -/

/-- No light. -/
def black : Triple ℝ := Triple.replicate 0

/-- Whether only the first anchor gives light. -/
def Degenerate (r p level : ℝ) : Prop :=
  (shareOf r < model.smallest ∧ 1 - model.smallest < p) ∨ level < model.smallest

instance (r p level : ℝ) : Decidable (Degenerate r p level) := inferInstanceAs (Decidable (_ ∨ _))

theorem isDegenerate_eq (r p level : ℝ) :
    isDegenerate (shareOf r) p level = .ok (decide (Degenerate r p level)) := by
  simp only [isDegenerate, Calc.smallest, calc_lt, calc_one, calc_sub, ok_bind, decide_eq_true_eq,
    Degenerate]
  by_cases h₁ : shareOf r < model.smallest <;> by_cases h₂ : 1 - model.smallest < p <;>
    simp [h₁, h₂, pure, Except.pure]

/-- The white light of a hue and purity, in the units of the light of the second anchor. -/
def whiteLight (r p : ℝ) : ℝ :=
  (1 - p) * (shareOf r * model.tinting.get (secondAnchor r) +
    (1 - shareOf r) * model.tinting.get (firstAnchor r))

/-- The lowest channel of a hue and purity, relative to that of the second anchor. -/
def lowestRatio (r p : ℝ) : ℝ := whiteLight r p / (whiteLight r p + p * shareOf r)

/-- The channel of the first anchor, relative to that of the second one. -/
def firstRatio (r p : ℝ) : ℝ :=
  (p - p * shareOf r) / (whiteLight r p + p * shareOf r) + lowestRatio r p

/-- The channels of a hue and purity relative to the second anchor. -/
def ratios (r p : ℝ) : Triple ℝ :=
  ((black.set (sector r).lowest (lowestRatio r p)).set (firstAnchor r) (firstRatio r p)).set
    (secondAnchor r) 1

/-- The light of the second anchor at an intensity. -/
def secondLight (r p : ℝ) : Level ℝ → ℝ
  | .absolute i => i ^ model.gamma / brightness (ratios r p)
  | .relative j =>
    if (sector r).highest = secondAnchor r then j ^ model.gamma
    else j ^ model.gamma / firstRatio r p

/-- The light of the first anchor where no other gives any. -/
def soleLight (r : ℝ) : Level ℝ → ℝ
  | .absolute i => max i 0 ^ model.gamma / model.normalSensitivity.get (firstAnchor r)
  | .relative j => max j 0 ^ model.gamma

/-- The linear channels of a hue and purity at an intensity. -/
def linear (r p : ℝ) (level : Level ℝ) : Triple ℝ :=
  if Degenerate r p level.value then black.set (firstAnchor r) (soleLight r level)
  else (ratios r p).map (secondLight r p level * ·)

theorem black_eq : (Triple.replicate (Arith.decimal 0 0) : Triple ℝ) = black := by
  rw [decimal_zero]
  rfl

@[simp] theorem get_black (k : Channel) : black.get k = 0 := by cases k <;> rfl

theorem get_set_black_nonneg {x : ℝ} (hx : 0 ≤ x) (k l : Channel) :
    0 ≤ (black.set k x).get l := by
  by_cases h : l = k
  · rwa [h, Triple.get_set_self]
  · rw [Triple.get_set_of_ne _ _ h, get_black]

theorem brightness_set_black (k : Channel) {x : ℝ} (hx : 0 ≤ x) :
    brightness (black.set k x) = model.normalSensitivity.get k * x := by
  have h := mul_nonneg (sensitivity_pos k).le hx
  unfold brightness maxFelt felt
  cases k <;> simp [black, Triple.replicate, Triple.set, Triple.get] at h ⊢ <;>
    simp [h] <;> ring

theorem highest_set_black (k : Channel) {x : ℝ} (hx : 0 ≤ x) : highest (black.set k x) = x := by
  unfold highest
  cases k <;> simp [black, Triple.replicate, Triple.set, hx]

theorem map_mul_set_black (k : Channel) (y x : ℝ) :
    (black.set k x).map (y * ·) = black.set k (y * x) := by
  cases k <;> simp [black, Triple.replicate, Triple.set, Triple.map]

theorem get_ratios_lowest (r p : ℝ) : (ratios r p).get (sector r).lowest = lowestRatio r p := by
  unfold ratios firstAnchor secondAnchor
  cases (sector r).lowest <;> rfl

theorem get_ratios_first (r p : ℝ) : (ratios r p).get (firstAnchor r) = firstRatio r p := by
  unfold ratios firstAnchor secondAnchor
  cases (sector r).lowest <;> rfl

theorem get_ratios_second (r p : ℝ) : (ratios r p).get (secondAnchor r) = 1 :=
  Triple.get_set_self _ _ _

section Ratios

variable {r p : ℝ} (hp₀ : 0 ≤ p) (hp₁ : p ≤ 1)

include hp₁ in
theorem whiteLight_nonneg : 0 ≤ whiteLight r p :=
  mul_nonneg (sub_nonneg.2 hp₁) (add_nonneg (mul_nonneg (shareOf_nonneg r) (tinting_pos _).le)
    (mul_nonneg (sub_nonneg.2 (shareOf_le_one r)) (tinting_pos _).le))

theorem whiteLight_pos (h : p < 1) : 0 < whiteLight r p := by
  refine mul_pos (sub_pos.2 h) ?_
  have h₀ := shareOf_nonneg r
  rcases (shareOf_le_one r).lt_or_eq with h₁ | h₁
  · exact add_pos_of_nonneg_of_pos (mul_nonneg h₀ (tinting_pos _).le)
      (mul_pos (sub_pos.2 h₁) (tinting_pos _))
  · rw [h₁, one_mul, sub_self, zero_mul, add_zero]
    exact tinting_pos _

include hp₀ hp₁

/-- Away from a pure first anchor there is light of the second anchor or white light. -/
theorem light_pos {level : ℝ} (h : ¬ Degenerate r p level) :
    0 < whiteLight r p + p * shareOf r := by
  rcases hp₁.lt_or_eq with hlt | rfl
  · exact add_pos_of_pos_of_nonneg (whiteLight_pos hlt) (mul_nonneg hp₀ (shareOf_nonneg r))
  · have hs : model.smallest ≤ shareOf r := by
      by_contra hs
      exact h (Or.inl ⟨not_le.1 hs, sub_lt_self _ smallest_pos⟩)
    exact add_pos_of_nonneg_of_pos (whiteLight_nonneg le_rfl)
      (by rw [one_mul]; exact smallest_pos.trans_le hs)

theorem lowestRatio_nonneg : 0 ≤ lowestRatio r p :=
  div_nonneg (whiteLight_nonneg hp₁)
    (add_nonneg (whiteLight_nonneg hp₁) (mul_nonneg hp₀ (shareOf_nonneg r)))

theorem lowestRatio_le_firstRatio : lowestRatio r p ≤ firstRatio r p := by
  refine le_add_of_nonneg_left (div_nonneg ?_
    (add_nonneg (whiteLight_nonneg hp₁) (mul_nonneg hp₀ (shareOf_nonneg r))))
  rw [sub_nonneg]
  exact mul_le_of_le_one_right hp₀ (shareOf_le_one r)

theorem firstRatio_nonneg : 0 ≤ firstRatio r p :=
  (lowestRatio_nonneg hp₀ hp₁).trans (lowestRatio_le_firstRatio hp₀ hp₁)

theorem lowestRatio_le_one : lowestRatio r p ≤ 1 :=
  div_le_one_of_le₀ (le_add_of_nonneg_right (mul_nonneg hp₀ (shareOf_nonneg r)))
    (add_nonneg (whiteLight_nonneg hp₁) (mul_nonneg hp₀ (shareOf_nonneg r)))

omit hp₁ in
/-- With at most half of the light in the second anchor, the first is at least as high. -/
theorem one_le_firstRatio (hu : 0 < whiteLight r p + p * shareOf r) (h : shareOf r ≤ 1 / 2) :
    1 ≤ firstRatio r p := by
  rw [firstRatio, lowestRatio, ← add_div, le_div_iff₀ hu]
  nlinarith

theorem firstRatio_le_one (h : 1 / 2 ≤ shareOf r) : firstRatio r p ≤ 1 := by
  rw [firstRatio, lowestRatio, ← add_div]
  refine div_le_one_of_le₀ ?_
    (add_nonneg (whiteLight_nonneg hp₁) (mul_nonneg hp₀ (shareOf_nonneg r)))
  nlinarith

theorem ratios_nonneg (k : Channel) : 0 ≤ (ratios r p).get k := by
  revert k
  refine Channel.forall_of_anchors (sector r).lowest ?_ ?_ ?_
  · rw [get_ratios_lowest]
    exact lowestRatio_nonneg hp₀ hp₁
  · exact (get_ratios_first r p).symm ▸ firstRatio_nonneg hp₀ hp₁
  · exact (get_ratios_second r p).symm ▸ zero_le_one

/-- The highest of the ratios is that of the highest channel of the sector. -/
theorem highest_ratios (hu : 0 < whiteLight r p + p * shareOf r) : highest (ratios r p) =
    if (sector r).highest = secondAnchor r then 1 else firstRatio r p := by
  have hl := get_ratios_lowest r p
  have hf := get_ratios_first r p
  have hs := get_ratios_second r p
  rcases sector_highest r with ⟨hh, h⟩ | ⟨hh, hne, h⟩
  · rw [if_pos hh, ← hs]
    refine highest_eq_get (Channel.forall_of_anchors (sector r).lowest ?_ ?_ le_rfl)
    · rw [hl, hs]
      exact lowestRatio_le_one hp₀ hp₁
    · exact hf.trans_le ((firstRatio_le_one hp₀ hp₁ h).trans hs.ge)
  · rw [if_neg (hh ▸ hne), ← hf]
    refine highest_eq_get (Channel.forall_of_anchors (sector r).lowest ?_ le_rfl ?_)
    · rw [hl, hf]
      exact lowestRatio_le_firstRatio hp₀ hp₁
    · exact hs.trans_le ((one_le_firstRatio hp₀ hu h).trans hf.ge)

theorem brightness_ratios_pos : 0 < brightness (ratios r p) := by
  refine lt_of_lt_of_le ?_ (felt_le_brightness (ratios_nonneg hp₀ hp₁) (secondAnchor r))
  rw [felt, get_ratios_second, mul_one]
  exact sensitivity_pos _

theorem secondLight_nonneg_of_level {level : Level ℝ} (hl : 0 ≤ level.value) :
    0 ≤ secondLight r p level := by
  cases level with
  | absolute i => exact div_nonneg (Real.rpow_nonneg hl _) (brightness_ratios_pos hp₀ hp₁).le
  | relative j =>
    unfold secondLight
    split_ifs
    · exact Real.rpow_nonneg hl _
    · exact div_nonneg (Real.rpow_nonneg hl _) (firstRatio_nonneg hp₀ hp₁)

omit hp₀ hp₁ in
theorem soleLight_nonneg (r : ℝ) (level : Level ℝ) : 0 ≤ soleLight r level := by
  cases level with
  | absolute i => exact div_nonneg (Real.rpow_nonneg (le_max_right _ _) _) (sensitivity_pos _).le
  | relative j => exact Real.rpow_nonneg (le_max_right _ _) _

/-- Linear channels of a hue and purity are not negative. -/
theorem linear_nonneg {level : Level ℝ} (hl : 0 ≤ level.value) (k : Channel) :
    0 ≤ (linear r p level).get k := by
  unfold linear
  split_ifs
  · exact get_set_black_nonneg (soleLight_nonneg r level) _ k
  · rw [Triple.get_map]
    exact mul_nonneg (secondLight_nonneg_of_level hp₀ hp₁ hl) (ratios_nonneg hp₀ hp₁ k)

/-- The highest linear channel is the light of the relative intensity. -/
theorem highest_linear_relative (j : ℝ) :
    highest (linear r p (.relative j)) = max j 0 ^ model.gamma := by
  unfold linear
  split_ifs with hdeg
  · exact highest_set_black _ (soleLight_nonneg r (.relative j))
  · have hj : 0 ≤ j := smallest_pos.le.trans (not_lt.1 fun h => hdeg (Or.inr h))
    have hu := light_pos hp₀ hp₁ hdeg
    have hy : 0 ≤ secondLight r p (.relative j) := secondLight_nonneg_of_level hp₀ hp₁ hj
    rw [highest_map_mul hy, highest_ratios hp₀ hp₁ hu, secondLight, max_eq_left hj]
    rcases sector_highest r with ⟨hh, -⟩ | ⟨hh, hne, hs⟩
    · rw [if_pos hh, if_pos hh, mul_one]
    · have hf := zero_lt_one.trans_le (one_le_firstRatio hp₀ hu hs)
      rw [if_neg (hh ▸ hne), if_neg (hh ▸ hne), div_mul_cancel₀ _ hf.ne']

theorem linear_le {j : ℝ} (k : Channel) :
    (linear r p (.relative j)).get k ≤ max j 0 ^ model.gamma :=
  (le_highest _ k).trans_eq (highest_linear_relative hp₀ hp₁ j)

omit hp₀ hp₁ in
/-- The channels set one by one are the ratios, scaled to the light of the second anchor. -/
theorem set_eq_map_ratios (y : ℝ) :
    ((black.set (secondAnchor r) y).set (firstAnchor r) (y * firstRatio r p)).set (sector r).lowest
      (y * lowestRatio r p) = (ratios r p).map (y * ·) := by
  unfold ratios firstAnchor secondAnchor
  cases (sector r).lowest <;> simp [Triple.set, Triple.map, Channel.anchors]

omit hp₀ hp₁ in
/-- With the second anchor highest, its light is that of the intensity. -/
theorem map_secondLight_of_highest (h : (sector r).highest = secondAnchor r) (j : ℝ) :
    (ratios r p).map (secondLight r p (.relative j) * ·) =
      ((black.set (secondAnchor r) (j ^ model.gamma)).set (firstAnchor r)
        (j ^ model.gamma * firstRatio r p)).set (sector r).lowest
          (j ^ model.gamma * lowestRatio r p) := by
  have hlight : secondLight r p (.relative j) = j ^ model.gamma := if_pos h
  rw [hlight, set_eq_map_ratios]

omit hp₀ hp₁ in
/-- Otherwise the light of the first anchor is. -/
theorem map_secondLight_of_ne (h : (sector r).highest ≠ secondAnchor r)
    (hratio : firstRatio r p ≠ 0) (j : ℝ) :
    (ratios r p).map (secondLight r p (.relative j) * ·) =
      ((black.set (secondAnchor r) (j ^ model.gamma / firstRatio r p)).set (firstAnchor r)
        (j ^ model.gamma)).set (sector r).lowest
          (j ^ model.gamma / firstRatio r p * lowestRatio r p) := by
  have hlight : secondLight r p (.relative j) = j ^ model.gamma / firstRatio r p := if_neg h
  rw [hlight, ← set_eq_map_ratios, div_mul_cancel₀ _ hratio]

omit hp₀ hp₁ in
theorem linearOfHue_of_degenerate {level : Level ℝ} (h : Degenerate r p level.value) :
    linearOfHue r p level = .ok (black.set (firstAnchor r) (soleLight r level)) := by
  have ha := anchorShare_eq r
  unfold firstAnchor secondAnchor at ha
  simp only [linearOfHue, hueOrder_eq, ok_bind, ha, isDegenerate_eq, decide_eq_true_eq, black_eq,
    if_pos h]
  cases level with
  | absolute i =>
    simp only [Level.value, calc_scientific, calc_max, scientific_zero, Calc.gamma,
      Calc.sensitivity]
    rw [calc_pow (le_max_right _ _) gamma_pos.le, calc_div _ (sensitivity_pos _).ne']
    rfl
  | relative j =>
    simp only [Level.value, calc_scientific, calc_max, scientific_zero, Calc.gamma]
    rw [calc_pow (le_max_right _ _) gamma_pos.le]
    rfl

theorem linearOfHue_of_light {level : Level ℝ} (h : ¬ Degenerate r p level.value) :
    linearOfHue r p level = .ok ((ratios r p).map (secondLight r p level * ·)) := by
  have ha := anchorShare_eq r
  unfold firstAnchor secondAnchor at ha
  have hu := light_pos hp₀ hp₁ h
  have hw : whiteLight r p = (1 - p) *
      (shareOf r * model.tinting.get (sector r).lowest.anchors.2 +
        (1 - shareOf r) * model.tinting.get (sector r).lowest.anchors.1) := rfl
  have hl : lowestRatio r p = whiteLight r p / (whiteLight r p + p * shareOf r) := rfl
  have hf : firstRatio r p =
      (p - p * shareOf r) / (whiteLight r p + p * shareOf r) + lowestRatio r p := rfl
  have hr : ratios r p = ((black.set (sector r).lowest (lowestRatio r p)).set
      (sector r).lowest.anchors.1 (firstRatio r p)).set (sector r).lowest.anchors.2 1 := rfl
  simp only [linearOfHue, hueOrder_eq, ok_bind, ha, isDegenerate_eq, decide_eq_true_eq, black_eq,
    decimal_one, if_neg h, Calc.tinting, calc_one, calc_mul, calc_sub, calc_add, ← hw,
    calc_div _ hu.ne', ← hl, ← hf, ← hr, mul_eq, Calc.gamma]
  have hlevel : 0 ≤ level.value := smallest_pos.le.trans (not_lt.1 fun hlow => h (Or.inr hlow))
  cases level with
  | absolute i =>
    simp only [brightness_eq, calc_pow (show 0 ≤ i from hlevel) gamma_pos.le,
      calc_div _ (brightness_ratios_pos hp₀ hp₁).ne', ok_bind, pure_bind]
    exact congrArg Except.ok (set_eq_map_ratios _)
  | relative j =>
    simp only [calc_pow (show 0 ≤ j from hlevel) gamma_pos.le, ok_bind, pure_bind]
    rcases sector_highest r with ⟨hh, -⟩ | ⟨hh, hne, hs⟩
    · rw [map_secondLight_of_highest hh]
      exact if_pos hh
    · have hne' : (sector r).highest ≠ secondAnchor r := hh ▸ hne
      have hratio := (zero_lt_one.trans_le (one_le_firstRatio hp₀ hu hs)).ne'
      rw [map_secondLight_of_ne hne' hratio]
      refine (if_neg hne').trans ?_
      rw [div_eq _ hratio]
      rfl

/-- A hue with a purity from 0 to 1 has linear channels at any intensity. -/
theorem linearOfHue_eq (level : Level ℝ) : linearOfHue r p level = .ok (linear r p level) := by
  unfold linear
  split_ifs with hdeg
  · exact linearOfHue_of_degenerate hdeg
  · exact linearOfHue_of_light hp₀ hp₁ hdeg

end Ratios

end Exact

end Dichromat

end
