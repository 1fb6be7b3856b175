import Dichromat.Search.Error
import Dichromat.Proofs.Exact.OfLinear
import Dichromat.Proofs.Search.Buffers

/-!
# Projections, distances and errors of pairs, in exact arithmetic

All linear light can be projected, to colours with a hue on the wheel (`project_ok`), and perceived
colours always have a distance (`distance_eq`). On the wheel two slices are at most a right angle
apart, so that no root is cut off (`apart_eq_sqrt`) and the distance is symmetric (`apart_comm`).
-/

noncomputable section

namespace Dichromat

namespace Exact

/-! ### Hues -/

/-- A colour that could be taken over has a hue on the wheel, whatever its channels. -/
theorem hue_of_ofLinear {c : Triple ℝ} {e : Eye ℝ} (h : Eye.ofLinear .perceived c = .ok e) :
    e.hue = hueOf c := by
  rw [Eye.ofLinear, Eye.apply_readLinear rfl] at h
  simp only [tint_eq, ok_bind, Tint.hueAndPurity, isGrey_eq, decide_eq_true_eq, bind_eq_ok,
    pure_eq_ok] at h
  obtain ⟨⟨r, p⟩, hr, i, -, rfl⟩ := h
  unfold hueOf
  by_cases hg : (tint c).light < model.smallest
  · rw [if_pos hg] at hr ⊢
    obtain ⟨rfl, -⟩ := Prod.mk.inj (pure_eq_ok.1 hr)
    norm_num
  · rw [if_neg hg] at hr ⊢
    rw [hue_eq c (smallest_pos.trans_le (not_lt.1 hg)).ne', ok_bind, bind_eq_ok] at hr
    obtain ⟨p', -, hr⟩ := hr
    exact (Prod.mk.inj (pure_eq_ok.1 hr)).1.symm

/-! ### Projection -/

theorem confined_eq (x : ℝ) : confined 1.0 x = .ok (min (max x 0) 1) := by
  simp only [confined, calc_zero, calc_lt, calc_scientific, ok_bind, decide_eq_true_eq,
    scientific_zero, scientific_one]
  split_ifs with h h'
  · rw [max_eq_right h.le, min_eq_left zero_le_one]
  · rw [max_eq_left (not_lt.1 h), min_eq_right h'.le]
  · rw [max_eq_left (not_lt.1 h), min_eq_left (not_lt.1 h')]

theorem light_ok (d : Deficiency) (c : Triple ℝ) : ∃ l, d.light c = .ok l := by
  have hs (x : ℝ) : Deficiency.soften x = .ok (0.99 * x + 0.005) := rfl
  cases d with
  | none => exact ⟨c, rfl⟩
  | red => exact ⟨_, rfl⟩
  | green =>
    simp only [Deficiency.light, Deficiency.lightOf, Deficiency.greenBlindYellow,
      Deficiency.greenBlindBlue, Triple.ofTerms, Triple.term, Triple.mapM, hs, ok_bind,
      calc_scientific, calc_neg, calc_mul, calc_add]
    exact ⟨_, rfl⟩

theorem seen_ok (d : Deficiency) (c : Triple ℝ) :
    ∃ l, d.seen c = .ok l ∧ ∀ k, l.get k ∈ Set.Icc (0 : ℝ) 1 := by
  obtain ⟨l, hl⟩ := light_ok d c
  refine ⟨l.map fun x => min (max x 0) 1, ?_, fun k => ?_⟩
  · simp only [Deficiency.seen, hl, ok_bind, Triple.mapM, confined_eq]
    rfl
  · rw [Triple.get_map]
    exact clamp_mem _

/-- All light can be projected, to a colour with a hue on the wheel. -/
theorem project_ok (d : Deficiency) (c : Triple ℝ) :
    ∃ e, d.project c = .ok e ∧ e.hue ∈ Set.Icc (0 : ℝ) 1 := by
  obtain ⟨l, hl, hl'⟩ := seen_ok d c
  refine ⟨read (Eye.blank .perceived) l, ?_, hueOf_mem l⟩
  rw [Deficiency.project, hl, ok_bind, ofLinear_eq fun k => (hl' k).1]

/-- So can all palettes, whatever the buffers hold. -/
theorem exists_projectAll {d : Deficiency} {p : Projector ℝ} (hp : p.Serves d)
    (palette : List (Triple ℝ)) : ∃ eyes q, p.projectAll palette = .ok (eyes, q) ∧ q.Serves d ∧
      List.Forall₂ d.Sees palette eyes := by
  obtain ⟨eyes, q, hall⟩ := Projector.projectAll_ok hp fun c (_ : c ∈ palette) =>
    (project_ok d c).imp fun _ h => h.1
  exact ⟨eyes, q, hall, Projector.serves_projectAll hp hall⟩

theorem hue_of_sees {d : Deficiency} {c : Triple ℝ} {e : Eye ℝ} (h : d.Sees c e) :
    e.hue ∈ Set.Icc (0 : ℝ) 1 := by
  obtain ⟨seen, hs, ha⟩ := h
  obtain ⟨e', he', hmem⟩ := project_ok d c
  obtain rfl := Except.ok.inj (hs.symm.trans he')
  rwa [ha.hue]

theorem hue_mem_of_sees {d : Deficiency} {colors : List (Triple ℝ)} {eyes : List (Eye ℝ)}
    (h : List.Forall₂ d.Sees colors eyes) : ∀ e ∈ eyes, e.hue ∈ Set.Icc (0 : ℝ) 1 := by
  intro e he
  obtain ⟨_, -, hsees⟩ := exists_left_of_mem h he
  exact hue_of_sees hsees

/-! ### Distance -/

/-- The shorter way around the wheel between two hues. -/
def hueGap (a b : ℝ) : ℝ := min |a - b| (1 - |a - b|)

theorem hueGap_mem {a b : ℝ} (ha : a ∈ Set.Icc (0 : ℝ) 1) (hb : b ∈ Set.Icc (0 : ℝ) 1) :
    hueGap a b ∈ Set.Icc (0 : ℝ) (1 / 2) := by
  have hd : |a - b| ≤ 1 := abs_sub_le_iff.2 ⟨by linarith [ha.2, hb.1], by linarith [hb.2, ha.1]⟩
  refine ⟨le_min (abs_nonneg _) (sub_nonneg.2 hd), ?_⟩
  rcases le_total |a - b| (1 / 2) with h | h
  · exact min_le_of_left_le h
  · exact min_le_of_right_le (by linarith)

/-- The cosine of the angle between the slices of two hues. -/
def cosine (a b : ℝ) : ℝ :=
  (2 - min (6 * min |a - b| (1 - |a - b|)) 1 * min (6 * min |a - b| (1 - |a - b|)) 1) / 2

theorem sliceCosine_eq (a b : ℝ) : sliceCosine a b = .ok (cosine a b) := by
  have h₂ : (2 : ℝ) ≠ 0 := two_ne_zero
  unfold sliceCosine cosine
  simp only [calc_lt, ok_bind, decide_eq_true_eq]
  by_cases h : a < b
  · have e : |a - b| = b - a := by rw [abs_sub_comm, abs_of_pos (sub_pos.2 h)]
    have e' : 1 - (b - a) = 1 + a - b := by ring
    simp only [h, if_true, calc_ofNat, calc_one, calc_sub, calc_add, calc_min, calc_mul,
      calc_scientific, scientific_one, calc_div _ h₂, e, e']
  · have e : |a - b| = a - b := abs_of_nonneg (sub_nonneg.2 (not_lt.1 h))
    have e' : 1 - (a - b) = 1 + b - a := by ring
    simp only [h, if_false, calc_ofNat, calc_one, calc_sub, calc_add, calc_min, calc_mul,
      calc_scientific, scientific_one, calc_div _ h₂, e, e']

theorem cosine_comm (a b : ℝ) : cosine a b = cosine b a := by
  rw [cosine, cosine, abs_sub_comm]

theorem cosine_eq (a b : ℝ) : cosine a b = 1 - min (6 * hueGap a b) 1 ^ 2 / 2 := by
  unfold cosine hueGap
  ring

/-- Slices of hues on the wheel are never more than a right angle apart. -/
theorem cosine_mem {a b : ℝ} (ha : a ∈ Set.Icc (0 : ℝ) 1) (hb : b ∈ Set.Icc (0 : ℝ) 1) :
    cosine a b ∈ Set.Icc (0 : ℝ) 1 := by
  have h₀ : 0 ≤ min (6 * hueGap a b) 1 :=
    le_min (mul_nonneg (by norm_num) (hueGap_mem ha hb).1) zero_le_one
  have hsq : min (6 * hueGap a b) 1 ^ 2 ≤ 1 := pow_le_one₀ h₀ (min_le_right _ _)
  have hsq' : 0 ≤ min (6 * hueGap a b) 1 ^ 2 := sq_nonneg _
  rw [cosine_eq]
  constructor <;> linarith

/-- How far off the axis of greys a colour lies on its slice. -/
def offAxis (e : Eye ℝ) : ℝ := e.perceived * Real.sin (Real.pi / 3 * e.purity)

/-- How far along that axis a colour lies. -/
def alongAxis (e : Eye ℝ) : ℝ := e.perceived * Real.cos (Real.pi / 3 * e.purity)

theorem slicePoint_eq (e : Eye ℝ) :
    slicePoint e.perceived e.purity = .ok (offAxis e, alongAxis e) := by
  simp only [slicePoint, calc_ofNat, calc_pi, calc_div _ three_ne_zero, calc_mul, calc_sin,
    calc_cos, ok_bind]
  rfl

/-- The distance of two perceived colours. -/
def apart (a b : Eye ℝ) : ℝ :=
  Real.sqrt ((offAxis a - offAxis b * cosine a.hue b.hue) *
      (offAxis a - offAxis b * cosine a.hue b.hue) +
    (alongAxis a - alongAxis b) * (alongAxis a - alongAxis b) +
    offAxis b * Real.sqrt (max 0 (1 - cosine a.hue b.hue * cosine a.hue b.hue)) *
      (offAxis b * Real.sqrt (max 0 (1 - cosine a.hue b.hue * cosine a.hue b.hue))))

theorem distance_eq {a b : Eye ℝ} (ha : a.space = .perceived) (hb : b.space = .perceived) :
    a.distance b = .ok (apart a b) := by
  simp only [Eye.distance, sliceCosine_eq, Eye.intensity_of_perceived ha,
    Eye.intensity_of_perceived hb, slicePoint_eq, ok_bind, sliceDistance, calc_mul, calc_sub,
    calc_one, calc_scientific, scientific_zero, calc_max, calc_sqrt (le_max_left _ _), calc_add]
  exact calc_sqrt (add_nonneg (add_nonneg (mul_self_nonneg _) (mul_self_nonneg _))
    (mul_self_nonneg _))

theorem apart_nonneg (a b : Eye ℝ) : 0 ≤ apart a b := Real.sqrt_nonneg _

/-- On the wheel the law of cosines gives the distance: no root is cut off. -/
theorem apart_eq_sqrt {a b : Eye ℝ} (ha : a.hue ∈ Set.Icc (0 : ℝ) 1)
    (hb : b.hue ∈ Set.Icc (0 : ℝ) 1) :
    apart a b = Real.sqrt (offAxis a ^ 2 + offAxis b ^ 2 -
      2 * (offAxis a * offAxis b) * cosine a.hue b.hue + (alongAxis a - alongAxis b) ^ 2) := by
  obtain ⟨h₀, h₁⟩ := cosine_mem ha hb
  have hsine : 0 ≤ 1 - cosine a.hue b.hue * cosine a.hue b.hue :=
    sub_nonneg.2 (mul_le_one₀ h₁ h₀ h₁)
  rw [apart, max_eq_right hsine, mul_mul_mul_comm, Real.mul_self_sqrt hsine]
  congr 1
  ring

theorem offAxis_sq_add_alongAxis_sq (e : Eye ℝ) :
    offAxis e ^ 2 + alongAxis e ^ 2 = e.perceived ^ 2 := by
  rw [offAxis, alongAxis, mul_pow, mul_pow, ← mul_add, Real.sin_sq_add_cos_sq, mul_one]

/-- Perceived colours are not further apart than both are from black. -/
theorem apart_le {a b : Eye ℝ} (ha : a.hue ∈ Set.Icc (0 : ℝ) 1) (hb : b.hue ∈ Set.Icc (0 : ℝ) 1)
    (ha₀ : 0 ≤ a.perceived) (hb₀ : 0 ≤ b.perceived) : apart a b ≤ a.perceived + b.perceived := by
  have hasq := offAxis_sq_add_alongAxis_sq a
  have hbsq := offAxis_sq_add_alongAxis_sq b
  obtain ⟨h₀, h₁⟩ := cosine_mem ha hb
  rw [apart_eq_sqrt ha hb]
  generalize cosine a.hue b.hue = c at h₀ h₁ ⊢
  generalize offAxis a = x, alongAxis a = z, offAxis b = y, alongAxis b = w at hasq hbsq ⊢
  have hsine : 0 ≤ 1 - c * c := sub_nonneg.2 (mul_le_one₀ h₁ h₀ h₁)
  -- the scalar product of the two places is at least that of opposite ones
  have hproduct : -(a.perceived * b.perceived) ≤ x * y * c + z * w := by
    refine (abs_le_of_sq_le_sq' ?_ (mul_nonneg ha₀ hb₀)).1
    rw [mul_pow, ← hasq, ← hbsq]
    have h₁ := mul_nonneg (sq_nonneg (x * y)) hsine
    have h₂ := mul_nonneg (sq_nonneg (z * y)) hsine
    have h₃ := sq_nonneg (x * w - z * y * c)
    linarith
  refine Real.sqrt_le_iff.2 ⟨add_nonneg ha₀ hb₀, ?_⟩
  linarith

/-- From black a perceived colour is as far as it is bright. -/
theorem apart_black {a b : Eye ℝ} (ha : a.hue ∈ Set.Icc (0 : ℝ) 1) (hb : b.hue ∈ Set.Icc (0 : ℝ) 1)
    (ha₀ : a.perceived = 0) (hb₀ : 0 ≤ b.perceived) : apart a b = b.perceived := by
  have hsq := offAxis_sq_add_alongAxis_sq b
  have hoff : offAxis a = 0 := by rw [offAxis, ha₀, zero_mul]
  have halong : alongAxis a = 0 := by rw [alongAxis, ha₀, zero_mul]
  rw [apart_eq_sqrt ha hb, hoff, halong, ← Real.sqrt_sq hb₀, ← hsq]
  congr 1
  ring

theorem apart_congr {a a' b b' : Eye ℝ} (ha : a.Agrees a') (hb : b.Agrees b') :
    apart a b = apart a' b' := by
  have h := Eye.distance_congr ha hb
  rwa [distance_eq ha.left hb.left, distance_eq ha.right hb.right, Except.ok.injEq] at h

theorem apart_self (a : Eye ℝ) : apart a a = 0 := by
  have hcosine : cosine a.hue a.hue = 1 := by
    rw [cosine, sub_self]
    norm_num
  unfold apart
  rw [hcosine]
  norm_num

theorem apart_of_agrees {a b : Eye ℝ} (h : a.Agrees b) : apart a b = 0 :=
  (apart_congr h (Eye.Agrees.refl h.right)).trans (apart_self b)

/-- Colours without a distance lie at the same place along the axis. -/
theorem alongAxis_eq_of_apart {a b : Eye ℝ} (h : apart a b = 0) : alongAxis a = alongAxis b := by
  have hsum := (Real.sqrt_eq_zero (add_nonneg (add_nonneg (mul_self_nonneg _) (mul_self_nonneg _))
    (mul_self_nonneg _))).1 h
  have hsquare : (alongAxis a - alongAxis b) * (alongAxis a - alongAxis b) = 0 := by
    refine le_antisymm ?_ (mul_self_nonneg _)
    have h₁ := mul_self_nonneg (offAxis a - offAxis b * cosine a.hue b.hue)
    have h₂ := mul_self_nonneg
      (offAxis b * Real.sqrt (max 0 (1 - cosine a.hue b.hue * cosine a.hue b.hue)))
    linarith
  exact sub_eq_zero.1 (mul_self_eq_zero.1 hsquare)

/-- On the wheel the distance is symmetric. -/
theorem apart_comm {a b : Eye ℝ} (ha : a.hue ∈ Set.Icc (0 : ℝ) 1) (hb : b.hue ∈ Set.Icc (0 : ℝ) 1) :
    apart a b = apart b a := by
  rw [apart_eq_sqrt ha hb, apart_eq_sqrt hb ha, cosine_comm]
  congr 1
  ring

/-! ### The error of a pair -/

/-- The relative difference of a projected distance from the original one, or the projected distance
where the original one counts as none. -/
def difference (settings : Settings ℝ) (projected original : ℝ) : ℝ :=
  if original ≤ settings.zeroDistanceThreshold then projected else projected / original - 1

/-- The error of a pair. -/
def pairCost (settings : Settings ℝ) (projected original : ℝ) : ℝ :=
  if 0 ≤ difference settings projected original then 0
  else if difference settings projected original ≤ -1 then settings.collapsePenalty
  else 1 / (1 + difference settings projected original) - 1

theorem pairCost_nonneg {settings : Settings ℝ} (h : 0 ≤ settings.collapsePenalty)
    (projected original : ℝ) : 0 ≤ pairCost settings projected original := by
  unfold pairCost
  split_ifs with hpos hlow
  · exact le_rfl
  · exact h
  · rw [not_le] at hpos hlow
    exact sub_nonneg.2 ((one_le_div (by linarith)).2 (by linarith))

/-- A pair that falls together costs the penalty. -/
theorem pairCost_zero {settings : Settings ℝ} {original : ℝ}
    (h : settings.zeroDistanceThreshold < original) :
    pairCost settings 0 original = settings.collapsePenalty := by
  have hd : difference settings 0 original = -1 := by
    rw [difference, if_neg (not_le.2 h), zero_div, zero_sub]
  rw [pairCost, hd, if_neg (by norm_num), if_pos le_rfl]

/-- A pair that stays as far apart as it was costs nothing. -/
theorem pairCost_self {settings : Settings ℝ} {original : ℝ} (h : 0 ≤ original)
    (hm : original ≤ settings.zeroDistanceThreshold ∨ original ≠ 0) :
    pairCost settings original original = 0 := by
  have hd : 0 ≤ difference settings original original := by
    unfold difference
    split_ifs with hnear
    · exact h
    · rw [div_self (hm.resolve_left hnear), sub_self]
  rw [pairCost, if_pos hd]

/-- A pair whose original distance counts as none costs nothing. -/
theorem pairCost_of_near {settings : Settings ℝ} {projected original : ℝ} (h : 0 ≤ projected)
    (hnear : original ≤ settings.zeroDistanceThreshold) :
    pairCost settings projected original = 0 := by
  have hd : 0 ≤ difference settings projected original := by rwa [difference, if_pos hnear]
  rw [pairCost, if_pos hd]

theorem near_or_ne_zero {settings : Settings ℝ} (h : 0 ≤ settings.zeroDistanceThreshold)
    (original : ℝ) : original ≤ settings.zeroDistanceThreshold ∨ original ≠ 0 := by
  rcases le_or_gt original settings.zeroDistanceThreshold with hle | hlt
  · exact Or.inl hle
  · exact Or.inr (h.trans_lt hlt).ne'

/-- What is left of a pair's error once the difference is known. -/
theorem error_of_difference (settings : Settings ℝ) (d : ℝ) :
    (do
      if ← Calc.le 0 (.ok d) then (0.0 : Calc ℝ)
      else if ← Calc.le (.ok d) (-1) then .ok settings.collapsePenalty
      else 1 / (1 + (.ok d : Calc ℝ)) - 1) =
    .ok (if 0 ≤ d then 0 else if d ≤ -1 then settings.collapsePenalty else 1 / (1 + d) - 1) := by
  simp only [ok_bind, decide_eq_true_eq, calc_zero, calc_le, calc_one, calc_neg, calc_add,
    calc_scientific, scientific_zero]
  split_ifs with hpos hlow
  · rfl
  · rfl
  · rw [calc_div _ (by linarith : 1 + d ≠ 0), calc_sub]

theorem pairError_eq {settings : Settings ℝ} {projected original : ℝ}
    (h : original ≤ settings.zeroDistanceThreshold ∨ original ≠ 0) :
    pairError projected original settings.zeroDistanceThreshold settings.collapsePenalty =
      .ok (pairCost settings projected original) := by
  have he := error_of_difference settings (difference settings projected original)
  unfold pairError pairCost
  unfold difference at he ⊢
  by_cases hnear : original ≤ settings.zeroDistanceThreshold
  · simp only [if_pos hnear] at he ⊢
    simp only [le_eq, ok_bind, hnear, decide_true, if_true]
    exact he
  · simp only [if_neg hnear] at he ⊢
    simp only [le_eq, ok_bind, hnear, decide_false, Bool.false_eq_true, if_false,
      div_eq _ (h.resolve_left hnear), calc_one, calc_sub] at he ⊢
    exact he

/-- A pair has an error unless it divides by a distance of 0, whatever the projected distance. -/
theorem pairError_eq_ok_iff {settings : Settings ℝ} {projected original e : ℝ} :
    pairError projected original settings.zeroDistanceThreshold settings.collapsePenalty = .ok e ↔
      (original ≤ settings.zeroDistanceThreshold ∨ original ≠ 0) ∧
        e = pairCost settings projected original := by
  by_cases h : original ≤ settings.zeroDistanceThreshold ∨ original ≠ 0
  · rw [pairError_eq h, and_iff_right h, Except.ok.injEq]
    exact eq_comm
  · obtain ⟨hfar, hzero⟩ := not_or.1 h
    obtain rfl := not_not.1 hzero
    refine iff_of_false ?_ fun h' => h h'.1
    have hd : (Arith.div projected 0 : Except Fault ℝ) = .error .divisionByZero := if_pos rfl
    simp only [pairError, le_eq, ok_bind, decide_eq_true_eq, if_neg hfar, hd]
    exact nofun

end Exact

end Dichromat

end
