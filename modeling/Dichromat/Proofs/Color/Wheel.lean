import Dichromat.Proofs.Color.Confined
import Dichromat.Proofs.Color.Distance
import Dichromat.Proofs.Color.Recovery

/-!
# The ends of the hue wheel

The hues 0 and 1 lie in different sectors, with different anchors, but both are red: their channels
are the same up to a scale (`proportional_of_gap`), unless a purity is so close to 1 that the guard
for pure primaries fires at one end only. So colours of these hues have one linear colour and one
intensity limit, and no distance (`OnWheel.coincides_of_gap`). Hues that are whole turns apart are
the same hue, or the two ends, once they have been turned onto the wheel: `wheel_closes`.
-/

noncomputable section

namespace Dichromat

namespace Exact

/-! ### The scale of the channels -/

section Scale

variable {r r' p : ℝ} (h : Proportional (chroma r p) (chroma r' p))

include h

/-- The scale of the channels has no part in the limit. -/
theorem limitOf_of_proportional : limitOf r p = limitOf r' p := by
  obtain ⟨y, hy, h⟩ := h
  rw [limitOf, limitOf, h, brightness_map_mul hy.le, highest_map_mul hy.le,
    mul_div_mul_left _ _ hy.ne']

/-- Nor has it one in the linear channels, except where the intensity is noise. -/
theorem linear_of_proportional (hp₀ : 0 ≤ p) (hp₁ : p ≤ 1) {level : Level ℝ}
    (hlevel : level.value = 0 ∨ model.smallest ≤ level.value) :
    linear r p level = linear r' p level := by
  obtain ⟨y, hy, h⟩ := h
  have hscale (x z t : ℝ) : x / (y * z) * (y * t) = x / z * t := by
    rw [mul_comm y z, ← div_div, ← mul_assoc, div_mul_cancel₀ _ hy.ne']
  rcases hlevel with hzero | hlevel
  · rw [linear_of_zero hzero, linear_of_zero hzero]
  · refine Triple.ext_get fun k => ?_
    cases level with
    | absolute i =>
      have hi : model.smallest ≤ i := hlevel
      rw [linear_absolute hi, linear_absolute hi, h, brightness_map_mul hy.le, Triple.get_map,
        Triple.get_map, Triple.get_map, hscale]
    | relative j =>
      have hj : model.smallest ≤ j := hlevel
      rw [linear_relative hp₀ hp₁ hj, linear_relative hp₀ hp₁ hj, h, highest_map_mul hy.le,
        Triple.get_map, Triple.get_map, Triple.get_map, hscale]

end Scale

/-! ### The two ends -/

/-- A pure blend without light of the second anchor is what the guard leaves. -/
theorem chroma_eq_blend {r : ℝ} (hshare : shareOf r = 0) : chroma r 1 = blend r 1 := by
  have hsole : Sole r 1 := ⟨hshare ▸ smallest_pos, sub_lt_self 1 smallest_pos⟩
  have hwhite : whiteLight r 1 = 0 := by rw [whiteLight, sub_self, zero_mul]
  rw [chroma, if_pos hsole, blend, hwhite, hshare, sub_zero, mul_zero, mul_one, add_zero, zero_add]
  unfold firstAnchor secondAnchor
  cases (sector r).lowest <;> rfl

theorem le_one_of_purity {p : ℝ} (hp : p ≤ 1 - model.smallest ∨ p = 1) : p ≤ 1 :=
  hp.elim (fun h => h.trans (sub_le_self 1 smallest_pos.le)) le_of_eq

/-- Purities close to 1 are left out: there the guard would fire at the hue 0 and not at 1. -/
theorem proportional_ends {p : ℝ} (hp₀ : 0 ≤ p) (hp : p ≤ 1 - model.smallest ∨ p = 1) :
    Proportional (chroma 0 p) (chroma 1 p) := by
  have hp₁ := le_one_of_purity hp
  have hsole : ¬ Sole 1 p := fun h => by
    rw [Sole, shareOf_one] at h
    exact absurd (h.1.trans smallest_lt_half) (by norm_num)
  have hzero : Proportional (chroma 0 p) (blend 0 p) := by
    rcases hp with hp | rfl
    · exact proportional_blend hp₀ hp₁ fun h => not_lt.2 hp h.2
    · exact Proportional.of_eq (chroma_eq_blend shareOf_zero)
  exact hzero.trans (blend_one p ▸ proportional_blend hp₀ hp₁ hsole).symm

/-- Hues without a gap between them are one hue, or the two ends. -/
theorem ends_of_gap {r r' : ℝ} (hr : r ∈ Set.Icc (0 : ℝ) 1) (hr' : r' ∈ Set.Icc (0 : ℝ) 1)
    (h : hueGap r r' = 0) : r = r' ∨ (r = 0 ∧ r' = 1) ∨ (r = 1 ∧ r' = 0) := by
  obtain ⟨hr₀, hr₁⟩ := hr
  obtain ⟨hr₀', hr₁'⟩ := hr'
  rcases min_choice |r - r'| (1 - |r - r'|) with hmin | hmin
  · exact Or.inl (sub_eq_zero.1 (abs_eq_zero.1 (hmin.symm.trans h)))
  · have hone : |r - r'| = 1 := (sub_eq_zero.1 (hmin.symm.trans h)).symm
    rcases (abs_eq zero_le_one).1 hone with hone | hone
    · exact Or.inr (Or.inr ⟨by linarith, by linarith⟩)
    · exact Or.inr (Or.inl ⟨by linarith, by linarith⟩)

theorem proportional_of_gap {r r' p : ℝ} (hr : r ∈ Set.Icc (0 : ℝ) 1)
    (hr' : r' ∈ Set.Icc (0 : ℝ) 1) (h : hueGap r r' = 0) (hp₀ : 0 ≤ p)
    (hp : p ≤ 1 - model.smallest ∨ p = 1) : Proportional (chroma r p) (chroma r' p) := by
  rcases ends_of_gap hr hr' h with rfl | ⟨rfl, rfl⟩ | ⟨rfl, rfl⟩
  · exact Proportional.of_eq rfl
  · exact proportional_ends hp₀ hp
  · exact (proportional_ends hp₀ hp).symm

/-- Without a gap between their hues, colours of one purity and intensity are not apart. -/
theorem apart_of_gap {a b : Eye ℝ} (ha : a.hue ∈ Set.Icc (0 : ℝ) 1)
    (hb : b.hue ∈ Set.Icc (0 : ℝ) 1) (hgap : hueGap a.hue b.hue = 0)
    (hpurity : a.purity = b.purity) (hperceived : a.perceived = b.perceived) : apart a b = 0 := by
  rw [apart_eq_across ha hb, hgap, offAxis, offAxis, alongAxis, alongAxis, hpurity, hperceived,
    across]
  norm_num

/-- Hues that are whole turns apart have no gap between them on the wheel. -/
theorem hueGap_turned {r r' : ℝ} (h : ∃ turns : ℤ, r' = r + turns) :
    hueGap (turned r) (turned r') = 0 := by
  obtain ⟨turns, rfl⟩ := h
  obtain ⟨m, hm⟩ := exists_turned_eq_add r
  obtain ⟨n, hn⟩ := exists_turned_eq_add (r + turns)
  obtain ⟨hgap₀, hgap₁⟩ := hueGap_mem (turned_mem r) (turned_mem (r + turns))
  have hdiff : turned r - turned (r + turns) = (m - turns - n : ℤ) := by
    rw [hm, hn]
    push_cast
    ring
  -- the gap is one of two whole numbers, and at most a half
  have hwhole : ∃ g : ℤ, hueGap (turned r) (turned (r + turns)) = g := by
    rw [hueGap, hdiff, ← Int.cast_abs]
    exact ⟨min |m - turns - n| (1 - |m - turns - n|), by push_cast; rfl⟩
  obtain ⟨g, hg⟩ := hwhole
  rw [hg] at hgap₀ hgap₁ ⊢
  have h₀ : 0 ≤ g := by exact_mod_cast hgap₀
  have h₁ : g < 1 := by exact_mod_cast hgap₁.trans_lt one_half_lt_one
  obtain rfl : g = 0 := by omega
  exact Int.cast_zero

end Exact

open Exact

/-- An intensity cut off at black and, if it is absolute, at a limit. -/
def Level.confined (limit : ℝ) : Level ℝ → Level ℝ
  | .absolute i => .absolute (min (max i 0) limit)
  | .relative j => .relative (min (max j 0) 1)

namespace Eye

variable {a b : Eye ℝ}

/-! ### Colours that coincide -/

/-- Colours with one linear colour and one intensity limit, and without a distance. -/
structure Coincides (a b : Eye ℝ) : Prop where
  linear : ∃ c,
    (Color.eye a).convert (.rgb .linear) =
      { source := .eye a, target := .rgb ⟨.linear, c⟩, fault := none } ∧
    (Color.eye b).convert (.rgb .linear) =
      { source := .eye b, target := .rgb ⟨.linear, c⟩, fault := none }
  limit : ∃ limit, a.limit = .ok limit ∧ b.limit = .ok limit
  distance : a.distance b = .ok 0 ∧ b.distance a = .ok 0

theorem intensity_congr {limit : ℝ} (hlevel : a.level = b.level) (ha : a.limit = .ok limit)
    (hb : b.limit = .ok limit) : a.intensity = b.intensity := by
  cases hsa : a.space <;> cases hsb : b.space <;> rw [level, level, hsa, hsb] at hlevel
  · rw [intensity_of_perceived hsa, intensity_of_perceived hsb, Level.absolute.inj hlevel]
  · cases hlevel
  · cases hlevel
  · rw [intensity_of_limit ha hsa, intensity_of_limit hb hsb, Level.relative.inj hlevel]

theorem distance_of_gap (ha : a.OnWheel) (hb : b.OnWheel) (hgap : hueGap a.hue b.hue = 0)
    (hpurity : a.purity = b.purity) (hintensity : a.intensity = b.intensity) :
    a.distance b = .ok 0 := by
  obtain ⟨i, hi⟩ := ha.exists_intensity
  have hapart : apart (a.lit i) (b.lit i) = 0 := apart_of_gap ha.hue hb.hue hgap hpurity rfl
  rw [distance_eq_apart hi (hintensity ▸ hi), hapart]

/-- Colours of one purity and intensity coincide if there is no gap between their hues. -/
theorem OnWheel.coincides_of_gap (ha : a.OnWheel) (hb : b.OnWheel) (ha' : a.Faithful)
    (hb' : b.Faithful) (hgap : hueGap a.hue b.hue = 0) (hpurity : a.purity = b.purity)
    (hp : a.purity ≤ 1 - model.smallest ∨ a.purity = 1) (hlevel : a.level = b.level)
    (hvalue : a.level.value = 0 ∨ model.smallest ≤ a.level.value) : a.Coincides b := by
  obtain ⟨hp₀, hp₁⟩ := ha.purity
  have hscale := proportional_of_gap ha.hue hb.hue hgap hp₀ hp
  have hlinear : b.toLinear = .ok (Exact.linear a.hue a.purity a.level) := by
    rw [linear_of_proportional hscale hp₀ hp₁ hvalue, hpurity, hlevel]
    exact linearOfHue_eq hb.purity.1 hb.purity.2 _
  have hlimit : a.limit = .ok (limitOf a.hue a.purity) := limit_eq ha' hp₀ hp₁
  have hlimit' : b.limit = .ok (limitOf a.hue a.purity) := by
    rw [limitOf_of_proportional hscale, hpurity]
    exact limit_eq hb' hb.purity.1 hb.purity.2
  have hintensity := intensity_congr hlevel hlimit hlimit'
  have hback : hueGap b.hue a.hue = 0 := by rwa [hueGap, abs_sub_comm]
  exact ⟨⟨_, convert_linear (linearOfHue_eq hp₀ hp₁ _), convert_linear hlinear⟩,
    ⟨_, hlimit, hlimit'⟩, distance_of_gap ha hb hgap hpurity hintensity,
    distance_of_gap hb ha hback hpurity.symm hintensity.symm⟩

/-! ### Hues turned onto the wheel -/

theorem level_confined (e : Eye ℝ) :
    e.confined.level = e.level.confined (limitOf e.confined.hue e.confined.purity) := by
  have hspace := space_confined e
  cases h : e.space <;> rw [h] at hspace <;> rw [level, level, hspace, h]
  · exact congrArg Level.absolute (perceived_confined h)
  · exact congrArg Level.relative (normalized_confined h)

/-- An intensity that is not noise is not cut off to noise. -/
theorem value_level_confined {e : Eye ℝ}
    (h : e.level.value ≤ 0 ∨ model.smallest ≤ e.level.value) :
    e.confined.level.value = 0 ∨ model.smallest ≤ e.confined.level.value := by
  have hcut {x top : ℝ} (htop : model.smallest ≤ top) (hx : x ≤ 0 ∨ model.smallest ≤ x) :
      min (max x 0) top = 0 ∨ model.smallest ≤ min (max x 0) top := by
    refine hx.imp (fun hx => ?_) fun hx => le_min (hx.trans (le_max_left _ _)) htop
    rw [max_eq_right hx, min_eq_left (smallest_pos.le.trans htop)]
  obtain ⟨hp₀, hp₁⟩ := (inRange_confined e).purity
  rw [level_confined]
  cases hlevel : e.level <;> rw [hlevel] at h
  · exact hcut (smallest_le_lowestLimit.trans (lowestLimit_le_limitOf hp₀ hp₁)) h
  · exact hcut (smallest_lt_half.le.trans one_half_lt_one.le) h

theorem onWheel_confined (e : Eye ℝ) : e.confined.OnWheel :=
  ⟨(inRange_confined e).hue, (inRange_confined e).purity⟩

/-- A purity that is cut off at 1 is 1, and no other comes close to it. -/
theorem purity_confined_of_purity {e : Eye ℝ}
    (h : e.purity ≤ 1 - model.smallest ∨ 1 ≤ e.purity) :
    e.confined.purity ≤ 1 - model.smallest ∨ e.confined.purity = 1 := by
  have hpos : 0 ≤ 1 - model.smallest :=
    sub_nonneg.2 (smallest_lt_half.le.trans one_half_lt_one.le)
  rw [purity_confined]
  exact h.imp (fun h => min_le_of_left_le (max_le h hpos))
    fun h => min_eq_right (h.trans (le_max_left _ _))

/-- Confined colours of one purity and intensity coincide if their hues were whole turns apart. -/
theorem Faithful.confined_coincides (ha : a.Faithful) (hb : b.Faithful)
    (hturns : ∃ turns : ℤ, b.hue = a.hue + turns) (hpurity : a.purity = b.purity)
    (hp : a.purity ≤ 1 - model.smallest ∨ 1 ≤ a.purity) (hlevel : a.level = b.level)
    (hvalue : a.level.value ≤ 0 ∨ model.smallest ≤ a.level.value) :
    a.confined.Coincides b.confined := by
  have hgap : hueGap a.confined.hue b.confined.hue = 0 := by
    rw [hue_confined, hue_confined]
    exact hueGap_turned hturns
  have hpurity' : a.confined.purity = b.confined.purity := by
    rw [purity_confined, purity_confined, hpurity]
  have hp' := purity_confined_of_purity hp
  have ha' := onWheel_confined a
  have hb' := onWheel_confined b
  have hlimit : limitOf a.confined.hue a.confined.purity =
      limitOf b.confined.hue b.confined.purity := by
    rw [← hpurity']
    exact limitOf_of_proportional (proportional_of_gap ha'.hue hb'.hue hgap ha'.purity.1 hp')
  refine ha'.coincides_of_gap hb' ha.confined hb.confined hgap hpurity' hp' ?_
    (value_level_confined hvalue)
  rw [level_confined, level_confined, hlevel, hlimit]

/-- Colours of the hues 0 and 1 coincide in either space if they have one purity and intensity, the
intensity is not noise, and the purity is 1 or not so close to it that it would be taken for 1. So
confined colours coincide if their hues were whole turns apart, whichever end of the wheel the hues
have been turned to. -/
theorem wheel_closes :
    (∀ a b : Eye ℝ, a.Faithful → b.Faithful → a.hue = 0 → b.hue = 1 → a.purity = b.purity →
      0 ≤ a.purity → (a.purity ≤ 1 - model.smallest ∨ a.purity = 1) → a.level = b.level →
      (a.level.value = 0 ∨ model.smallest ≤ a.level.value) → a.Coincides b) ∧
    ∀ a b : Eye ℝ, a.Faithful → b.Faithful → (∃ turns : ℤ, b.hue = a.hue + turns) →
      a.purity = b.purity → (a.purity ≤ 1 - model.smallest ∨ 1 ≤ a.purity) → a.level = b.level →
      (a.level.value ≤ 0 ∨ model.smallest ≤ a.level.value) →
      ∃ s t, (Color.eye a).confine = (.eye s, none) ∧ (Color.eye b).confine = (.eye t, none) ∧
        s.OnWheel ∧ (∃ turns : ℤ, s.hue = a.hue + turns) ∧
        t.OnWheel ∧ (∃ turns : ℤ, t.hue = b.hue + turns) ∧ s.Coincides t := by
  refine ⟨fun a b ha hb hzero hone hpurity hp₀ hp hlevel hvalue => ?_,
    fun a b ha hb hturns hpurity hp hlevel hvalue => ?_⟩
  · have hp₁ := le_one_of_purity hp
    have ha' : a.OnWheel := ⟨⟨hzero.ge, hzero.trans_le zero_le_one⟩, hp₀, hp₁⟩
    have hb' : b.OnWheel := ⟨⟨zero_le_one.trans_eq hone.symm, hone.le⟩, hpurity ▸ ⟨hp₀, hp₁⟩⟩
    have hgap : hueGap a.hue b.hue = 0 := by
      rw [hzero, hone]
      norm_num [hueGap]
    exact ha'.coincides_of_gap hb' ha hb hgap hpurity hp hlevel hvalue
  · have hhue (e : Eye ℝ) : ∃ turns : ℤ, e.confined.hue = e.hue + turns := by
      rw [hue_confined]
      exact exists_turned_eq_add e.hue
    exact ⟨a.confined, b.confined, confine_eye ha, confine_eye hb, onWheel_confined a, hhue a,
      onWheel_confined b, hhue b, ha.confined_coincides hb hturns hpurity hp hlevel hvalue⟩

/-- Reds of half their purity at the two ends of the wheel, and pure ones of too much light that are
turned to the upper end from below and to the lower end from above. -/
theorem wheel_closes_red :
    (∃ a b : Eye ℝ, a.hue = 0 ∧ b.hue = 1 ∧ a.purity = 1 / 2 ∧ a.level = .relative (1 / 2) ∧
      a.Coincides b) ∧
    ∃ a b s t : Eye ℝ, a.hue = -3 ∧ b.hue = 2 ∧ a.level = .absolute 5 ∧
      (Color.eye a).confine = (.eye s, none) ∧ (Color.eye b).confine = (.eye t, none) ∧
      s.Coincides t := by
  obtain ⟨hends, hturned⟩ := wheel_closes
  have hhalf : model.smallest ≤ 1 / 2 := smallest_lt_half.le
  constructor
  · let red (hue : ℝ) : Eye ℝ :=
      { blank .normalized with hue := hue, purity := 1 / 2, normalized := 1 / 2 }
    have hred (hue : ℝ) : (red hue).Faithful := faithful_blank .normalized
    have hpurity : (red 0).purity ≤ 1 - model.smallest := by
      show (1 / 2 : ℝ) ≤ 1 - model.smallest
      linarith
    exact ⟨red 0, red 1, rfl, rfl, rfl, rfl, hends (red 0) (red 1) (hred 0) (hred 1) rfl rfl rfl
      one_half_pos.le (Or.inl hpurity) rfl (Or.inr hhalf)⟩
  · let red (hue : ℝ) : Eye ℝ :=
      { blank .perceived with hue := hue, purity := 2, perceived := 5 }
    have hred (hue : ℝ) : (red hue).Faithful := faithful_blank .perceived
    have hturns : ∃ turns : ℤ, (red 2).hue = (red (-3)).hue + turns := by
      refine ⟨5, ?_⟩
      show (2 : ℝ) = -3 + (5 : ℤ)
      norm_num
    have hpurity : 1 ≤ (red (-3)).purity := one_le_two
    have hvalue : model.smallest ≤ (red (-3)).level.value := by
      show model.smallest ≤ 5
      linarith
    obtain ⟨s, t, hs, ht, -, -, -, -, h⟩ := hturned (red (-3)) (red 2) (hred _) (hred _) hturns rfl
      (Or.inr hpurity) rfl (Or.inr hvalue)
    exact ⟨red (-3), red 2, s, t, rfl, rfl, rfl, hs, ht, h⟩

end Eye

end Dichromat

end
