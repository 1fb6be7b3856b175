import Dichromat.Proofs.Color.Limit

/-!
# Confined colours

Confining a perceptual colour turns its hue onto the wheel by whole turns (`turned`), brings its
purity between 0 and 1 (`placed`), and cuts its intensity off at the limit of the hue and purity that
it has from then on (`confined`). As long as the colour remembers no wrong limit, whatever it holds
besides, the colour that results lies in the gamut and stays as it is when it is confined again
(`confine_into_gamut`).
-/

noncomputable section

namespace Dichromat

namespace Exact

/-! ### Turned hues -/

/-- A hue turned onto the wheel; the hues on it stay, 0 and 1 alike. -/
def turned (r : ℝ) : ℝ :=
  if r < 0 then 1 - Int.fract (-r) else if 1 < r then Int.fract r else r

theorem turned_mem (r : ℝ) : turned r ∈ Set.Icc (0 : ℝ) 1 := by
  unfold turned
  split_ifs with hlow hhigh
  · exact ⟨sub_nonneg.2 (Int.fract_lt_one _).le, sub_le_self _ (Int.fract_nonneg _)⟩
  · exact ⟨Int.fract_nonneg _, (Int.fract_lt_one _).le⟩
  · exact ⟨not_lt.1 hlow, not_lt.1 hhigh⟩

/-- A hue is turned by whole turns. -/
theorem exists_turned_eq_add (r : ℝ) : ∃ n : ℤ, turned r = r + n := by
  unfold turned
  split_ifs with hlow hhigh
  · refine ⟨⌊-r⌋ + 1, ?_⟩
    rw [Int.fract]
    push_cast
    ring
  · refine ⟨-⌊r⌋, ?_⟩
    rw [Int.fract]
    push_cast
    ring
  · exact ⟨0, by rw [Int.cast_zero, add_zero]⟩

theorem turned_of_mem {r : ℝ} (h : r ∈ Set.Icc (0 : ℝ) 1) : turned r = r := by
  rw [turned, if_neg (not_lt.2 h.1), if_neg (not_lt.2 h.2)]

theorem clamp_of_mem {x : ℝ} (h : x ∈ Set.Icc (0 : ℝ) 1) : min (max x 0) 1 = x := by
  rw [max_eq_left h.1, min_eq_left h.2]

end Exact

open Exact

namespace Eye

/-! ### Hue and purity -/

/-- A colour with its hue on the wheel and its purity between 0 and 1. -/
def placed (e : Eye ℝ) : Eye ℝ :=
  { e with hue := turned e.hue, purity := min (max e.purity 0) 1 }

/-- What is left of confining a colour once its hue and purity are in their ranges. -/
def confineIntensity (e : Eye ℝ) : Update (Eye ℝ) Unit :=
  match e.space with
  | .perceived => do
    if ← Calc.lt (.ok e.perceived) 0 then
      modify fun t => { t with perceived := Arith.decimal 0 0 }
    else
      let limit ← readLimit
      if ← Calc.lt (.ok limit) (.ok e.perceived) then
        modify fun t => { t with perceived := limit }
  | .normalized => do
    let j ← Calc.min (Calc.max (.ok e.normalized) 0.0) 1.0
    modify fun t => { t with normalized := j }

/-- The hue is turned one way, the other way or not at all; what follows is the same. -/
theorem runOn_confine (e : Eye ℝ) : confine.runOn e = (confineIntensity e).runOn e.placed := by
  unfold confine confineIntensity
  simp only [Update.runOn_bind, Update.runOn_get, Update.runOn_liftM, calc_zero, calc_one, calc_lt,
    calc_scientific, calc_max, calc_min, scientific_zero, scientific_one, decide_eq_true_eq]
  by_cases hlow : e.hue < 0
  · have hplaced : e.placed =
        { e with hue := 1 - Int.fract (-e.hue), purity := min (max e.purity 0) 1 } := by
      rw [placed, turned, if_pos hlow]
    cases e.space <;>
      simp only [if_pos hlow, Update.runOn_bind, Update.runOn_liftM, Update.runOn_modify, calc_neg,
        calc_fract, calc_sub, hplaced]
  by_cases hhigh : 1 < e.hue
  · have hplaced : e.placed =
        { e with hue := Int.fract e.hue, purity := min (max e.purity 0) 1 } := by
      rw [placed, turned, if_neg hlow, if_pos hhigh]
    cases e.space <;>
      simp only [if_neg hlow, if_pos hhigh, Update.runOn_bind, Update.runOn_liftM,
        Update.runOn_modify, calc_fract, decide_eq_true_eq, hplaced]
  · have hplaced : e.placed = { e with purity := min (max e.purity 0) 1 } := by
      rw [placed, turned, if_neg hlow, if_neg hhigh]
    cases e.space <;>
      simp only [if_neg hlow, if_neg hhigh, Update.runOn_bind, Update.runOn_liftM,
        Update.runOn_modify, decide_eq_true_eq, hplaced]

/-! ### The intensity -/

/-- A confined colour. The limit is read, and remembered, unless the intensity is below black. -/
def confined (e : Eye ℝ) : Eye ℝ :=
  match e.space with
  | .perceived =>
    if e.perceived < 0 then { e.placed with perceived := 0 }
    else { e.placed.known with
      perceived := min e.perceived (limitOf e.placed.hue e.placed.purity) }
  | .normalized => { e.placed with normalized := min (max e.normalized 0) 1 }

variable {e : Eye ℝ}

theorem purity_placed_mem (e : Eye ℝ) : e.placed.purity ∈ Set.Icc (0 : ℝ) 1 := clamp_mem _

/-- The limit of a placed colour is read at its new hue and purity. -/
theorem readLimit_placed (he : e.Faithful) : readLimit.runOn e.placed =
    (.ok (limitOf e.placed.hue e.placed.purity), e.placed.known) :=
  readLimit_of_limit (limit_eq (e := e.placed) he (purity_placed_mem e).1 (purity_placed_mem e).2)

/-- A normalized colour is confined whatever it remembers. -/
theorem runOn_confine_of_normalized (hspace : e.space = .normalized) :
    confine.runOn e = (.ok (), e.confined) := by
  rw [runOn_confine, confineIntensity, confined, hspace]
  simp only [calc_scientific, calc_max, calc_min, scientific_zero, scientific_one,
    Update.runOn_bind, Update.runOn_liftM, Update.runOn_modify]

theorem runOn_confine_of_perceived (he : e.Faithful) (hspace : e.space = .perceived) :
    confine.runOn e = (.ok (), e.confined) := by
  rw [runOn_confine, confineIntensity, confined, hspace]
  simp only [Update.runOn_bind, Update.runOn_liftM, calc_zero, calc_lt, decide_eq_true_eq]
  by_cases hlow : e.perceived < 0
  · rw [if_pos hlow, if_pos hlow, Update.runOn_modify, decimal_zero]
  · rw [if_neg hlow, if_neg hlow, Update.runOn_bind, readLimit_placed he]
    simp only [Update.runOn_bind, Update.runOn_liftM, decide_eq_true_eq]
    by_cases hhigh : limitOf e.placed.hue e.placed.purity < e.perceived
    · rw [if_pos hhigh, min_eq_right hhigh.le, Update.runOn_modify]
    · rw [if_neg hhigh, min_eq_left (not_lt.1 hhigh), Update.runOn_pure]
      rfl

theorem runOn_confine_eq (he : e.Faithful) : confine.runOn e = (.ok (), e.confined) := by
  rcases hspace : e.space with _ | _
  · exact runOn_confine_of_perceived he hspace
  · exact runOn_confine_of_normalized hspace

/-! ### What confining leaves -/

theorem space_confined (e : Eye ℝ) : e.confined.space = e.space := by
  rcases e with ⟨_ | _, _, _, _, _, _, _, _⟩
  · unfold confined
    split_ifs <;> rfl
  · rfl

theorem hue_confined (e : Eye ℝ) : e.confined.hue = turned e.hue := by
  unfold confined
  split
  · split_ifs <;> rfl
  · rfl

theorem purity_confined (e : Eye ℝ) : e.confined.purity = min (max e.purity 0) 1 := by
  unfold confined
  split
  · split_ifs <;> rfl
  · rfl

/-- An absolute intensity ends up between black and the limit. -/
theorem perceived_confined (hspace : e.space = .perceived) :
    e.confined.perceived = min (max e.perceived 0) (limitOf e.confined.hue e.confined.purity) := by
  have hlimit := limitOf_pos (r := e.placed.hue) (purity_placed_mem e).1 (purity_placed_mem e).2
  have hbound : limitOf e.confined.hue e.confined.purity =
      limitOf e.placed.hue e.placed.purity := by
    rw [hue_confined, purity_confined, placed]
  rw [hbound, confined, hspace]
  rcases lt_or_ge e.perceived 0 with hlow | hlow
  · simp only [if_pos hlow, max_eq_right hlow.le, min_eq_left hlimit.le]
  · simp only [if_neg (not_lt.2 hlow), max_eq_left hlow]

theorem normalized_confined (hspace : e.space = .normalized) :
    e.confined.normalized = min (max e.normalized 0) 1 := by
  rw [confined, hspace]

theorem perceived_confined_of_normalized (hspace : e.space = .normalized) :
    e.confined.perceived = e.perceived := by
  rw [confined, hspace]
  rfl

theorem normalized_confined_of_perceived (hspace : e.space = .perceived) :
    e.confined.normalized = e.normalized := by
  rw [confined, hspace]
  simp only
  split_ifs <;> rfl

theorem Faithful.confined (he : e.Faithful) : e.confined.Faithful := by
  unfold Eye.confined
  split
  · split_ifs
    · exact he
    · exact faithful_known (e := e.placed) (purity_placed_mem e).1 (purity_placed_mem e).2
  · exact he

/-! ### Colours in their ranges -/

/-- Hue, purity and intensity in their ranges; that of an absolute intensity ends at the limit. -/
structure InRange (e : Eye ℝ) : Prop where
  hue : e.hue ∈ Set.Icc (0 : ℝ) 1
  purity : e.purity ∈ Set.Icc (0 : ℝ) 1
  perceived : e.space = .perceived → e.perceived ∈ Set.Icc 0 (limitOf e.hue e.purity)
  normalized : e.space = .normalized → e.normalized ∈ Set.Icc (0 : ℝ) 1

theorem inRange_confined (e : Eye ℝ) : e.confined.InRange := by
  have hp : e.confined.purity ∈ Set.Icc (0 : ℝ) 1 := by
    rw [purity_confined]
    exact clamp_mem _
  refine ⟨?_, hp, fun hspace => ?_, fun hspace => ?_⟩
  · rw [hue_confined]
    exact turned_mem _
  · rw [space_confined] at hspace
    rw [perceived_confined hspace]
    exact ⟨le_min (le_max_right _ _) (limitOf_pos hp.1 hp.2).le, min_le_right _ _⟩
  · rw [space_confined] at hspace
    rw [normalized_confined hspace]
    exact clamp_mem _

section InRange

variable (h : e.InRange)

include h

theorem InRange.placed_eq : e.placed = e := by
  rw [placed, turned_of_mem h.hue, clamp_of_mem h.purity]

/-- A perceived colour in its ranges stays as it is, and remembers its limit. -/
theorem InRange.confined_of_perceived (hspace : e.space = .perceived) : e.confined = e.known := by
  obtain ⟨h₀, h₁⟩ := h.perceived hspace
  rw [confined, hspace, h.placed_eq]
  simp only [if_neg (not_lt.2 h₀), min_eq_left h₁]
  rfl

theorem InRange.confined_of_normalized (hspace : e.space = .normalized) : e.confined = e := by
  rw [confined, hspace, h.placed_eq]
  simp only [clamp_of_mem (h.normalized hspace)]

theorem InRange.toLinear_eq : e.toLinear = .ok (linear e.hue e.purity e.level) :=
  linearOfHue_eq h.purity.1 h.purity.2 _

/-- A colour in its ranges lies in the gamut. -/
theorem InRange.linear_mem (k : Channel) :
    (linear e.hue e.purity e.level).get k ∈ Set.Icc (0 : ℝ) 1 := by
  obtain ⟨hp₀, hp₁⟩ := h.purity
  rcases hspace : e.space with _ | _
  · obtain ⟨hi₀, hi₁⟩ := h.perceived hspace
    have hlevel : e.level = .absolute e.perceived := by rw [level, hspace]
    have hvalue : 0 ≤ (Level.absolute e.perceived).value := hi₀
    have hhighest := (highest_linear_le_one_iff hp₀ hp₁ hi₀).2 hi₁
    rw [hlevel]
    exact ⟨linear_nonneg hp₀ hp₁ hvalue k, (le_highest _ k).trans hhighest⟩
  · obtain ⟨hj₀, hj₁⟩ := h.normalized hspace
    have hlevel : e.level = .relative e.normalized := by rw [level, hspace]
    have hvalue : 0 ≤ (Level.relative e.normalized).value := hj₀
    have hlight : max e.normalized 0 ^ model.gamma ≤ 1 :=
      Real.rpow_le_one (le_max_right _ _) (max_le hj₁ zero_le_one) gamma_pos.le
    rw [hlevel]
    exact ⟨linear_nonneg hp₀ hp₁ hvalue k, (linear_le hp₀ hp₁ k).trans hlight⟩

end InRange

/-- From black upwards the limit is remembered at once. -/
theorem known_confined (hspace : e.space = .perceived) (hi : 0 ≤ e.perceived) :
    e.confined.known = e.confined := by
  rw [confined, hspace]
  simp only [if_neg (not_lt.2 hi)]
  rfl

/-! ### Into the gamut -/

theorem confine_eye (he : e.Faithful) : (Color.eye e).confine = (.eye e.confined, none) := by
  simp only [Color.confine, Color.changeEye, runOn_confine_eq he, Color.faultOf]

/-- Linear channels are copied as they are. -/
theorem convert_linear {c : Triple ℝ} (h : e.toLinear = .ok c) :
    (Color.eye e).convert (.rgb .linear) =
      { source := .eye e, target := .rgb ⟨.linear, c⟩, fault := none } := by
  have hcopy : (Color.copyEyeToRgb e).runOn (Rgb.blank .linear) = (.ok (), ⟨.linear, c⟩) := by
    rw [Color.copyEyeToRgb, h]
    rfl
  simp only [Color.convert, Color.blank, Color.copyTo, Color.changeRgb, hcopy, Color.faultOf]

/-- Confining never fails, whatever a colour holds, as long as it remembers no wrong limit. It turns
the hue onto the wheel by whole turns, cuts the purity off at 0 and 1 and the intensity of the space
at 0 and the limit of the new hue and purity, or 1. The colour that results has linear channels from
0 to 1, and confining it again changes nothing; only where the intensity was below black is the limit
first read, and remembered, then. -/
theorem confine_into_gamut (he : e.Faithful) :
    ∃ t limit,
      (Color.eye e).confine = (.eye t, none) ∧ t.space = e.space ∧ t.Faithful ∧
      t.hue ∈ Set.Icc (0 : ℝ) 1 ∧ (∃ turns : ℤ, t.hue = e.hue + turns) ∧
      t.purity = min (max e.purity 0) 1 ∧
      intensityLimit t.hue t.purity = .ok limit ∧ t.limit = .ok limit ∧ 0 < limit ∧
      (e.space = .perceived →
        t.perceived = min (max e.perceived 0) limit ∧ t.normalized = e.normalized) ∧
      (e.space = .normalized →
        t.normalized = min (max e.normalized 0) 1 ∧ t.perceived = e.perceived) ∧
      (∃ again, (Color.eye t).confine = (.eye again, none) ∧
        again.space = t.space ∧ again.hue = t.hue ∧ again.purity = t.purity ∧
        again.perceived = t.perceived ∧ again.normalized = t.normalized ∧
        again.limit = t.limit ∧
        (e.space = .normalized ∨ 0 ≤ e.perceived → again = t)) ∧
      ∃ c, (Color.eye t).convert (.rgb .linear) =
          { source := .eye t, target := .rgb ⟨.linear, c⟩, fault := none } ∧
        ∀ k, c.get k ∈ Set.Icc (0 : ℝ) 1 := by
  have hrange := inRange_confined e
  obtain ⟨hp₀, hp₁⟩ := hrange.purity
  have hlimit := limit_eq he.confined hp₀ hp₁
  refine ⟨e.confined, limitOf e.confined.hue e.confined.purity, confine_eye he,
    space_confined e, he.confined, hrange.hue, ?_, purity_confined e, intensityLimit_eq hp₀ hp₁,
    hlimit, limitOf_pos hp₀ hp₁,
    fun h => ⟨perceived_confined h, normalized_confined_of_perceived h⟩,
    fun h => ⟨normalized_confined h, perceived_confined_of_normalized h⟩, ?_,
    ⟨_, convert_linear hrange.toLinear_eq, hrange.linear_mem⟩⟩
  · rw [hue_confined]
    exact exists_turned_eq_add e.hue
  · rcases hspace : e.space with _ | _
    · have hagain := hrange.confined_of_perceived ((space_confined e).trans hspace)
      have hknown : e.confined.known.limit = e.confined.limit :=
        (limit_eq (faithful_known hp₀ hp₁) hp₀ hp₁).trans hlimit.symm
      exact ⟨e.confined.known, hagain ▸ confine_eye he.confined, rfl, rfl, rfl, rfl, rfl, hknown,
        fun h => known_confined hspace (h.resolve_left nofun)⟩
    · have hagain := hrange.confined_of_normalized ((space_confined e).trans hspace)
      exact ⟨e.confined, (confine_eye he.confined).trans (by rw [hagain]), rfl, rfl, rfl, rfl, rfl,
        rfl, fun _ => rfl⟩

/-- A hue more than three turns below the wheel, with twice the purity that there can be. -/
theorem confine_into_gamut_far_out :
    ∃ (e t : Eye ℝ) (limit : ℝ) (c : Triple ℝ), e.space = .perceived ∧ e.hue = -13 / 4 ∧
      e.purity = 2 ∧ e.perceived = 5 ∧ e.Faithful ∧ (Color.eye e).confine = (.eye t, none) ∧
      t.hue = 3 / 4 ∧ t.purity = 1 ∧ intensityLimit t.hue t.purity = .ok limit ∧
      t.perceived = min 5 limit ∧ (Color.eye t).confine = (.eye t, none) ∧
      (Color.eye t).convert (.rgb .linear) =
        { source := .eye t, target := .rgb ⟨.linear, c⟩, fault := none } ∧
      ∀ k, c.get k ∈ Set.Icc (0 : ℝ) 1 := by
  let e : Eye ℝ := { blank .perceived with hue := -13 / 4, purity := 2, perceived := 5 }
  have he : e.Faithful := faithful_blank .perceived
  have hi : 0 ≤ e.perceived := Nat.ofNat_nonneg 5
  obtain ⟨t, limit, hconfine, -, -, hwheel, ⟨turns, hturns⟩, hpurity, hlimit, -, -, hperceived, -,
    ⟨again, hagain, -, -, -, -, -, -, hsame⟩, c, hc, hgamut⟩ := confine_into_gamut he
  rw [hsame (Or.inr hi)] at hagain
  have hhue : t.hue = 3 / 4 := by
    have hturns : t.hue = -13 / 4 + turns := hturns
    -- the only whole number of turns that leads onto the wheel
    have hlow : (3 : ℝ) < turns := by linarith [hwheel.1]
    have hhigh : (turns : ℝ) < 5 := by linarith [hwheel.2]
    have h₁ : 3 < turns := by exact_mod_cast hlow
    have h₂ : turns < 5 := by exact_mod_cast hhigh
    obtain rfl : turns = 4 := by omega
    rw [hturns]
    norm_num
  refine ⟨e, t, limit, c, rfl, rfl, rfl, rfl, he, hconfine, hhue, ?_, hlimit, ?_, hagain, hc, hgamut⟩
  · rw [hpurity]
    norm_num [e]
  · rw [(hperceived rfl).1]
    norm_num [e]

end Eye

end Dichromat

end
