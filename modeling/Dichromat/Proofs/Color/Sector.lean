import Dichromat.Proofs.Color.RoundTrip

/-!
# Hue sectors

The order in which a hue ranks the channels is the order of their values. From a hue to linear
light: in its sector the channels of a hue and purity ascend, whatever guard fires
(`chroma_ascends`), and so do they at every intensity that is not noise (`linear_ascends`). From
linear light to a hue: the share of the second anchor stays on its side of one half when it is bent,
so a colour gets a hue of the sector that ranks its channels (`ascends_hueOf`). Both conversions
succeed on everything that has a range to be in (`toLinear_follows_hueOrder`,
`readLinear_follows_hueOrder`).
-/

noncomputable section

namespace Dichromat

namespace Exact

/-! ### Channels in the order of a sector -/

variable {r : ℝ} {c : Triple ℝ}

/-- The channels ascend if the anchor with more of the light is the higher one. -/
theorem sector_ascends (h₁ : c.get (sector r).lowest ≤ c.get (firstAnchor r))
    (h₂ : c.get (sector r).lowest ≤ c.get (secondAnchor r))
    (hsecond : 1 / 2 ≤ shareOf r → c.get (firstAnchor r) ≤ c.get (secondAnchor r))
    (hfirst : shareOf r ≤ 1 / 2 → c.get (secondAnchor r) ≤ c.get (firstAnchor r)) :
    (sector r).Ascends c := by
  rcases sector_eq r with ⟨h, hs⟩ | ⟨h, hs⟩ <;> rw [h]
  · exact ⟨h₁, hsecond hs⟩
  · exact ⟨h₂, hfirst hs⟩

/-- A sector ranks all channels, so its ends are the ends of their values. -/
theorem mem_of_ascends (h : (sector r).Ascends c) (k : Channel) :
    c.get k ∈ Set.Icc (c.get (sector r).lowest) (c.get (sector r).highest) := by
  obtain ⟨hl, hm⟩ := h
  revert k
  rcases sector_eq r with ⟨h, -⟩ | ⟨h, -⟩ <;> rw [h] at hl hm ⊢
  · exact Channel.forall_of_anchors _ ⟨le_rfl, hl.trans hm⟩ ⟨hl, hm⟩ ⟨hl.trans hm, le_rfl⟩
  · exact Channel.forall_of_anchors _ ⟨le_rfl, hl.trans hm⟩ ⟨hl.trans hm, le_rfl⟩ ⟨hl, hm⟩

theorem highest_of_ascends (h : (sector r).Ascends c) : highest c = c.get (sector r).highest :=
  highest_eq_get fun k => (mem_of_ascends h k).2

theorem ascends_map_mul {o : Ranking} {y : ℝ} (hy : 0 ≤ y) (h : o.Ascends c) :
    o.Ascends (c.map (y * ·)) := by
  constructor <;> rw [Triple.get_map, Triple.get_map]
  · exact mul_le_mul_of_nonneg_left h.lowest_le hy
  · exact mul_le_mul_of_nonneg_left h.middle_le hy

theorem ascends_black (o : Ranking) : o.Ascends black := by
  constructor <;> rw [get_black, get_black]

/-! ### From a hue -/

/-- Light of the first anchor alone suits a sector where the second has less of it. -/
theorem ascends_set_black {x : ℝ} (hx : 0 ≤ x) (hs : shareOf r < 1 / 2) :
    (sector r).Ascends (black.set (firstAnchor r) x) := by
  have hother {k : Channel} (hk : k ≠ firstAnchor r) : (black.set (firstAnchor r) x).get k = 0 := by
    rw [Triple.get_set_of_ne _ _ hk, get_black]
  have hlowest : (black.set (firstAnchor r) x).get (sector r).lowest = 0 :=
    hother (Channel.fst_anchors_ne _).symm
  have hsecond : (black.set (firstAnchor r) x).get (secondAnchor r) = 0 :=
    hother (Channel.fst_anchors_ne_snd _).symm
  refine sector_ascends ?_ ?_ (fun h => absurd hs (not_lt.2 h)) fun _ => ?_
  · exact hlowest.trans_le (get_set_black_nonneg hx _ _)
  · rw [hlowest, hsecond]
  · exact hsecond.trans_le (get_set_black_nonneg hx _ _)

section Purity

variable {p : ℝ} (hp₀ : 0 ≤ p) (hp₁ : p ≤ 1)

include hp₀ hp₁

theorem ratios_ascends (hu : 0 < whiteLight r p + p * shareOf r) :
    (sector r).Ascends (ratios r p) := by
  have hl := get_ratios_lowest r p
  have hf := get_ratios_first r p
  have hs := get_ratios_second r p
  refine sector_ascends ?_ ?_ (fun h => ?_) fun h => ?_
  · rw [hl, hf]
    exact lowestRatio_le_firstRatio hp₀ hp₁
  · rw [hl, hs]
    exact lowestRatio_le_one hp₀ hp₁
  · rw [hf, hs]
    exact firstRatio_le_one hp₀ hp₁ h
  · rw [hs, hf]
    exact one_le_firstRatio hp₀ hu h

/-- Up to their scale the channels of a hue and purity ascend in the sector of the hue. -/
theorem chroma_ascends : (sector r).Ascends (chroma r p) := by
  unfold chroma
  by_cases h : Sole r p
  · rw [if_pos h]
    exact ascends_set_black zero_le_one (h.1.trans smallest_lt_half)
  · -- no guard fires at this intensity either, so there is light to divide by
    have hd : ¬ Degenerate r p (Level.absolute model.smallest).value :=
      mt (degenerate_iff_sole le_rfl).1 h
    rw [if_neg h]
    exact ratios_ascends hp₀ hp₁ (light_pos hp₀ hp₁ hd)

/-- An intensity that is not noise only scales the channels. -/
theorem exists_linear_eq_map {level : Level ℝ} (h : model.smallest ≤ level.value) :
    ∃ y, 0 ≤ y ∧ linear r p level = (chroma r p).map (y * ·) := by
  have hlight : 0 ≤ level.value ^ model.gamma := Real.rpow_nonneg (smallest_pos.le.trans h) _
  cases level with
  | absolute i => exact ⟨_, div_nonneg hlight (brightness_chroma_pos hp₀ hp₁).le, linear_absolute h⟩
  | relative j =>
    exact ⟨_, div_nonneg hlight (highest_chroma_pos hp₀ hp₁).le, linear_relative hp₀ hp₁ h⟩

/-- In black and from the least intensity that is not noise, the channels ascend. -/
theorem linear_ascends {level : Level ℝ} (h : level.value = 0 ∨ model.smallest ≤ level.value) :
    (sector r).Ascends (linear r p level) := by
  rcases h with h | h
  · rw [linear_of_zero h]
    exact ascends_black _
  · obtain ⟨y, hy, hlinear⟩ := exists_linear_eq_map (r := r) hp₀ hp₁ h
    rw [hlinear]
    exact ascends_map_mul hy (chroma_ascends hp₀ hp₁)

end Purity

/-! ### To a hue -/

/-- A colour that does not count as grey has a hue of the sector that ranks its channels. -/
theorem ascends_hueOf (h : model.smallest ≤ (tint c).light) : (sector (hueOf c)).Ascends c := by
  have hl : 0 < (tint c).light := smallest_pos.trans_le h
  have hlight : (tint c).light = (tint c).firstLight + (tint c).secondLight := rfl
  have hfirst : (tint c).firstLight = c.get (tint c).first - c.get (lowest c) := rfl
  have hsecond : (tint c).secondLight = c.get (tint c).second - c.get (lowest c) := rfl
  rw [hueOf, if_neg (not_lt.2 h)]
  -- a share of one half or more of the light is at least the light of the other anchor
  refine sector_ascends ?_ ?_ ?_ ?_
  · rw [sector_hue hl]
    exact get_lowest_le c _
  · rw [sector_hue hl]
    exact get_lowest_le c _
  · rw [shareOf_hue hl, firstAnchor_hue hl, secondAnchor_hue hl, share, le_div_iff₀ hl]
    intro hshare
    linarith
  · rw [shareOf_hue hl, firstAnchor_hue hl, secondAnchor_hue hl, share, div_le_iff₀ hl]
    intro hshare
    linarith

end Exact

open Exact

namespace Eye

/-- A hue on the wheel and a purity that there can be. -/
structure OnWheel (e : Eye ℝ) : Prop where
  hue : e.hue ∈ Set.Icc (0 : ℝ) 1
  purity : e.purity ∈ Set.Icc (0 : ℝ) 1

/-! ### Both conversions -/

/-- A perceptual colour of any hue always has linear channels. None is negative, those of an
intensity that is not noise ascend in the order of the hue, and those of a normalized intensity end
at its light. -/
theorem toLinear_follows_hueOrder {e : Eye ℝ} (hp : e.purity ∈ Set.Icc (0 : ℝ) 1)
    (hi : 0 ≤ e.level.value) :
    ∃ order c, hueOrder e.hue = .ok order ∧
      (∀ old, (Color.eye e).copyTo (.rgb ⟨.linear, old⟩) =
        { source := .eye e, target := .rgb ⟨.linear, c⟩, fault := none }) ∧
      (∀ k, 0 ≤ c.get k) ∧
      (e.level.value = 0 ∨ model.smallest ≤ e.level.value → order.Ascends c) ∧
      (e.space = .normalized →
        (∀ k, c.get k ≤ e.normalized ^ model.gamma) ∧
        (e.normalized = 0 ∨ model.smallest ≤ e.normalized →
          c.get order.highest = e.normalized ^ model.gamma) ∧
        (e.normalized ≤ 1 → ∀ k, c.get k ≤ 1)) := by
  obtain ⟨hp₀, hp₁⟩ := hp
  have hlinear : e.toLinear = .ok (linear e.hue e.purity e.level) := linearOfHue_eq hp₀ hp₁ _
  refine ⟨sector e.hue, linear e.hue e.purity e.level, hueOrder_eq e.hue, fun old => ?_,
    linear_nonneg hp₀ hp₁ hi, linear_ascends hp₀ hp₁, fun hspace => ?_⟩
  · have h : (Color.copyEyeToRgb e).runOn ⟨.linear, old⟩ =
        (.ok (), ⟨.linear, linear e.hue e.purity e.level⟩) := by
      rw [Color.copyEyeToRgb, hlinear]
      rfl
    simp only [Color.copyTo, Color.changeRgb, h, Color.faultOf]
  · have hlevel : e.level = .relative e.normalized := by rw [level, hspace]
    rw [hlevel] at hi ⊢
    have hj : 0 ≤ e.normalized := hi
    have hhighest : highest (linear e.hue e.purity (.relative e.normalized)) =
        e.normalized ^ model.gamma := by
      rw [highest_linear_relative hp₀ hp₁, max_eq_left hj]
    have hle (k : Channel) : (linear e.hue e.purity (.relative e.normalized)).get k ≤
        e.normalized ^ model.gamma := (le_highest _ k).trans_eq hhighest
    refine ⟨hle, fun hnoise => ?_, fun hone k => (hle k).trans ?_⟩
    · have hascends : (sector e.hue).Ascends (linear e.hue e.purity (.relative e.normalized)) :=
        linear_ascends hp₀ hp₁ hnoise
      rw [← highest_of_ascends hascends, hhighest]
    · exact Real.rpow_le_one hj hone gamma_pos.le

/-- Pure red, a corner of the wheel where the white light and the light of the second anchor
vanish. -/
theorem toLinear_follows_hueOrder_red :
    ∃ (e : Eye ℝ) (order : Ranking) (c : Triple ℝ), e.space = .normalized ∧ e.hue = 0 ∧
      e.purity = 1 ∧ e.normalized = 1 / 2 ∧ hueOrder (0 : ℝ) = .ok order ∧
      (Color.eye e).copyTo (.rgb ⟨.linear, black⟩) =
        { source := .eye e, target := .rgb ⟨.linear, c⟩, fault := none } ∧
      (∀ k, 0 ≤ c.get k) ∧ order.Ascends c ∧ (∀ k, c.get k ≤ 1) ∧
      c.get order.highest = (1 / 2) ^ model.gamma := by
  let e : Eye ℝ := { blank .normalized with hue := 0, purity := 1, normalized := 1 / 2 }
  have hp : e.purity ∈ Set.Icc (0 : ℝ) 1 := ⟨zero_le_one, le_rfl⟩
  have hi : e.level.value = 1 / 2 := rfl
  have hnoise : model.smallest ≤ (1 / 2 : ℝ) := smallest_lt_half.le
  have hone : e.normalized ≤ 1 := by
    show (1 / 2 : ℝ) ≤ 1
    norm_num
  obtain ⟨order, c, ho, hcopy, hnonneg, hascends, hnormalized⟩ :=
    toLinear_follows_hueOrder hp (hi ▸ by norm_num)
  obtain ⟨-, hhighest, hle⟩ := hnormalized rfl
  exact ⟨e, order, c, rfl, rfl, rfl, rfl, ho, hcopy black, hnonneg, hascends (Or.inr (hi ▸ hnoise)),
    hle hone, hhighest (Or.inr hnoise)⟩

/-- A linear colour can always be taken over, into a colour on the wheel. Unless it counts as grey,
the order of its hue is the order of its channels, from a lowest one to a highest one. -/
theorem readLinear_follows_hueOrder {c : Triple ℝ} (hc : ∀ k, 0 ≤ c.get k) (e : Eye ℝ) :
    ∃ seen t order,
      (Color.rgb ⟨.linear, c⟩).copyTo (.eye e) =
        { source := .rgb ⟨.linear, c⟩, target := .eye seen, fault := none } ∧
      seen.space = e.space ∧ seen.OnWheel ∧ 0 ≤ seen.level.value ∧
      Tint.ofLinear c = .ok t ∧ hueOrder seen.hue = .ok order ∧
      (model.smallest ≤ t.light → order.Ascends c ∧
        ∀ k, c.get k ∈ Set.Icc (c.get order.lowest) (c.get order.highest)) := by
  have hlevel : 0 ≤ (read e c).level.value := by
    rw [level_read]
    exact levelOf_nonneg hc
  refine ⟨read e c, tint c, sector (hueOf c), copyTo_read hc e, rfl,
    ⟨hueOf_mem c, purityOf_nonneg hc, purityOf_le_one hc⟩, hlevel, tint_eq c, hueOrder_eq _,
    fun hlight => ?_⟩
  have hascends := ascends_hueOf hlight
  exact ⟨hascends, mem_of_ascends hascends⟩

/-- Yellow, whose two highest channels are equal. -/
theorem readLinear_follows_hueOrder_yellow :
    ∃ (seen : Eye ℝ) (t : Tint ℝ) (order : Ranking),
      (Color.rgb ⟨.linear, ⟨1, 1, 0⟩⟩).copyTo (.eye (blank .perceived)) =
        { source := .rgb ⟨.linear, ⟨1, 1, 0⟩⟩, target := .eye seen, fault := none } ∧
      seen.OnWheel ∧ 0 ≤ seen.perceived ∧ Tint.ofLinear (⟨1, 1, 0⟩ : Triple ℝ) = .ok t ∧
      model.smallest ≤ t.light ∧ hueOrder seen.hue = .ok order ∧
      order.Ascends (⟨1, 1, 0⟩ : Triple ℝ) := by
  have hc : ∀ k, 0 ≤ (⟨1, 1, 0⟩ : Triple ℝ).get k := by
    intro k
    cases k <;> norm_num [Triple.get]
  obtain ⟨seen, t, order, hcopy, hspace, hwheel, hlevel, ht, ho, hascends⟩ :=
    readLinear_follows_hueOrder hc (blank .perceived)
  have hlight : model.smallest ≤ t.light := by
    have hlow : lowest ⟨1, 1, 0⟩ = .blue := by norm_num [lowest]
    have e : t.light = 2 := by
      rw [← Except.ok.inj ((tint_eq _).symm.trans ht), tint, hlow]
      norm_num [Triple.get, Channel.anchors]
    rw [e]
    exact smallest_lt_half.le.trans (by norm_num)
  rw [level, hspace] at hlevel
  exact ⟨seen, t, order, hcopy, hwheel, hlevel, ht, hlight, ho, (hascends hlight).1⟩

end Eye

end Dichromat

end
