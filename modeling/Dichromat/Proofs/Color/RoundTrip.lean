import Dichromat.Color.Convert
import Dichromat.Proofs.Exact.Limit

/-!
# From linear RGB to perceptual colours and back

In exact arithmetic a linear colour that is copied into a perceptual one and back keeps its three
channels, but for the colours that a guard of the conversion takes for simpler ones than they are
(`NearlyGrey`, `NearlyPrimary`, `NearlyBlack`). The sector of the hue has the anchors of the tint,
the bent share is bent back, and the channels relative to the second anchor are those of the
colour (`ratios_eq_map_div`), so hue and purity give the channels up to their scale
(`exists_eq_map_chroma`); the intensity then gives the scale (`linear_levelOf`).
-/

noncomputable section

namespace Dichromat

namespace Exact

/-! ### The sector of a tint -/

theorem sector_blue {r : ℝ} (h : r ≤ 1 / 3) : (sector r).lowest = .blue := by
  rw [sector, if_pos h]
  split_ifs <;> rfl

theorem sector_red {r : ℝ} (h₁ : 1 / 3 < r) (h₂ : r ≤ 2 / 3) : (sector r).lowest = .red := by
  rw [sector, if_neg (not_le.2 h₁), if_pos h₂]
  split_ifs <;> rfl

theorem sector_green {r : ℝ} (h : 2 / 3 < r) : (sector r).lowest = .green := by
  rw [sector, if_neg (by linarith), if_neg (by linarith)]
  split_ifs <;> rfl

section Tint

variable {c : Triple ℝ} (h : 0 < (tint c).light)

include h

/-- The hue of a tint lies in the sector of its anchors. A hue on the boundary of two sectors
belongs to the lower one, and the upper one never gives it: there the second anchor has light. -/
theorem sector_hue : (sector (hue (tint c))).lowest = lowest c := by
  have hd₀ : 0 ≤ bend (tint c).first (tint c).second (share (tint c)) :=
    bend_nonneg (share_nonneg c)
  have hd₁ : bend (tint c).first (tint c).second (share (tint c)) ≤ 1 :=
    bend_le_one (share_nonneg c) (share_le_one c)
  have hd (hs : c.get (lowest c) < c.get (lowest c).anchors.2) :
      0 < bend (tint c).first (tint c).second (share (tint c)) :=
    bend_pos (div_pos (sub_pos.2 hs) h)
  have hr : hue (tint c) = ((lowest c).anchors.1.index +
    bend (tint c).first (tint c).second (share (tint c))) / 3 := rfl
  rw [hr]
  generalize bend (tint c).first (tint c).second (share (tint c)) = d at hd₀ hd₁ hd ⊢
  unfold lowest at hd ⊢
  split_ifs at hd ⊢ with h₁ h₂ h₂
  · have hpos := hd h₂
    refine sector_red ?_ ?_ <;> rw [show Channel.red.anchors.1.index = 1 from rfl, Nat.cast_one] <;>
      linarith
  · refine sector_blue ?_
    rw [show Channel.blue.anchors.1.index = 0 from rfl, Nat.cast_zero]
    linarith
  · have hpos := hd (not_le.1 h₁)
    refine sector_green ?_
    rw [show Channel.green.anchors.1.index = 2 from rfl, Nat.cast_ofNat]
    linarith
  · refine sector_blue ?_
    rw [show Channel.blue.anchors.1.index = 0 from rfl, Nat.cast_zero]
    linarith

theorem firstAnchor_hue : firstAnchor (hue (tint c)) = (tint c).first := by
  rw [firstAnchor, sector_hue h]
  rfl

theorem secondAnchor_hue : secondAnchor (hue (tint c)) = (tint c).second := by
  rw [secondAnchor, sector_hue h]
  rfl

/-- The share that the hue was bent from. -/
theorem shareOf_hue : shareOf (hue (tint c)) = share (tint c) := by
  have hplace : place (hue (tint c)) = bend (tint c).first (tint c).second (share (tint c)) := by
    have e : 3 * hue (tint c) - (firstAnchor (hue (tint c))).index =
        bend (tint c).first (tint c).second (share (tint c)) := by
      rw [firstAnchor_hue h, hue]
      ring
    rw [place, e, max_eq_left (bend_nonneg (share_nonneg c)),
      min_eq_left (bend_le_one (share_nonneg c) (share_le_one c))]
  rw [shareOf, hplace, firstAnchor_hue h, secondAnchor_hue h, unbend_bend (share_nonneg c)]

end Tint

/-! ### The channels of a tint -/

section Purity

variable {c : Triple ℝ}

theorem purity_nonneg (hc : ∀ k, 0 ≤ c.get k) : 0 ≤ purity (tint c) :=
  div_nonneg (tinted_nonneg c) (add_nonneg (hc _) (tinted_nonneg c))

theorem purity_le_one (hc : ∀ k, 0 ≤ c.get k) : purity (tint c) ≤ 1 :=
  div_le_one_of_le₀ (le_add_of_nonneg_left (hc _)) (add_nonneg (hc _) (tinted_nonneg c))

theorem purity_mul_share (c : Triple ℝ) : purity (tint c) * share (tint c) =
    (tint c).secondLight * tinted (tint c) /
      (((tint c).white + tinted (tint c)) * (tint c).light) := by
  rw [purity, share, div_mul_div_comm, mul_comm (tinted (tint c))]

/-! The light of the second anchor is the unit of the ratios. In the terms below all light is
multiplied by what both anchors tint, over all that is seen of it. -/

section Positive

variable (hc : ∀ k, 0 ≤ c.get k) (h : 0 < (tint c).light)

include hc h

theorem seen_pos : 0 < (tint c).white + tinted (tint c) :=
  add_pos_of_nonneg_of_pos (hc _) (tinted_pos h)

theorem whiteLight_hue : whiteLight (hue (tint c)) (purity (tint c)) =
    (tint c).white * tinted (tint c) / (((tint c).white + tinted (tint c)) * (tint c).light) := by
  have hs := (seen_pos hc h).ne'
  have e₁ : 1 - purity (tint c) = (tint c).white / ((tint c).white + tinted (tint c)) := by
    rw [purity, eq_div_iff hs, sub_mul, div_mul_cancel₀ _ hs]
    ring
  have e₂ : 1 - share (tint c) = (tint c).firstLight / (tint c).light := by
    rw [share, eq_div_iff h.ne', sub_mul, div_mul_cancel₀ _ h.ne', one_mul]
    exact sub_eq_of_eq_add rfl
  have e₃ : share (tint c) * model.tinting.get (tint c).second +
      (1 - share (tint c)) * model.tinting.get (tint c).first =
        tinted (tint c) / (tint c).light := by
    rw [e₂, share, div_mul_eq_mul_div, div_mul_eq_mul_div, ← add_div, add_comm]
    rfl
  rw [whiteLight, shareOf_hue h, firstAnchor_hue h, secondAnchor_hue h, e₁, e₃, div_mul_div_comm]

/-- What the ratios are relative to is the channel of the second anchor. -/
theorem light_hue : whiteLight (hue (tint c)) (purity (tint c)) + purity (tint c) * share (tint c) =
    c.get (tint c).second * tinted (tint c) /
      (((tint c).white + tinted (tint c)) * (tint c).light) := by
  have e : c.get (tint c).second = (tint c).white + (tint c).secondLight :=
    (add_sub_cancel _ _).symm
  rw [whiteLight_hue hc h, purity_mul_share, ← add_div, ← add_mul, e]

theorem lowestRatio_hue : lowestRatio (hue (tint c)) (purity (tint c)) =
    (tint c).white / c.get (tint c).second := by
  rw [lowestRatio, shareOf_hue h, light_hue hc h, whiteLight_hue hc h,
    div_div_div_cancel_right₀ (mul_ne_zero (seen_pos hc h).ne' h.ne'),
    mul_div_mul_right _ _ (tinted_pos h).ne']

theorem firstRatio_hue : firstRatio (hue (tint c)) (purity (tint c)) =
    c.get (tint c).first / c.get (tint c).second := by
  have hs := (seen_pos hc h).ne'
  have e : c.get (tint c).first = (tint c).firstLight + (tint c).white := (sub_add_cancel _ _).symm
  have e' : purity (tint c) - purity (tint c) * share (tint c) = (tint c).firstLight *
      tinted (tint c) / (((tint c).white + tinted (tint c)) * (tint c).light) := by
    rw [purity_mul_share, purity, eq_div_iff (mul_ne_zero hs h.ne'), sub_mul,
      div_mul_cancel₀ _ (mul_ne_zero hs h.ne'), ← mul_assoc, div_mul_cancel₀ _ hs,
      ← sub_eq_of_eq_add
        (show (tint c).light = (tint c).firstLight + (tint c).secondLight from rfl)]
    ring
  rw [firstRatio, shareOf_hue h, light_hue hc h, lowestRatio_hue hc h, e',
    div_div_div_cancel_right₀ (mul_ne_zero hs h.ne'), mul_div_mul_right _ _ (tinted_pos h).ne',
    ← add_div, e]

/-- Hue and purity of a tint give back its channels, relative to the second anchor. -/
theorem ratios_eq_map_div (h₂ : 0 < c.get (tint c).second) :
    ratios (hue (tint c)) (purity (tint c)) = c.map (· / c.get (tint c).second) := by
  refine Triple.ext_get (Channel.forall_of_anchors (lowest c) ?_ ?_ ?_)
  · rw [← sector_hue h, get_ratios_lowest, lowestRatio_hue hc h, Triple.get_map, sector_hue h]
    rfl
  · have e := get_ratios_first (hue (tint c)) (purity (tint c))
    rw [firstAnchor_hue h] at e
    rw [Triple.get_map]
    exact e.trans (firstRatio_hue hc h)
  · have e := get_ratios_second (hue (tint c)) (purity (tint c))
    rw [secondAnchor_hue h] at e
    rw [Triple.get_map]
    exact e.trans (div_self h₂.ne').symm

end Positive

end Purity

/-! ### The scale -/

/-- The intensity of linear channels, of the kind that a space holds. -/
def levelOf (space : EyeSpace) (c : Triple ℝ) : Level ℝ :=
  match space with
  | .perceived => .absolute (brightness c ^ model.gammaInverse)
  | .normalized => .relative (highest c ^ model.gammaInverse)

theorem level_read (e : Eye ℝ) (c : Triple ℝ) : (read e c).level = levelOf e.space c := by
  rcases e with ⟨_ | _, _, _, _, _, _, _, _⟩ <;> rfl

theorem levelOf_nonneg {space : EyeSpace} {c : Triple ℝ} (hc : ∀ k, 0 ≤ c.get k) :
    0 ≤ (levelOf space c).value := by
  cases space with
  | perceived => exact Real.rpow_nonneg (brightness_nonneg hc) _
  | normalized => exact Real.rpow_nonneg (highest_nonneg hc) _

/-- A colour at the scale of its own intensity. -/
theorem linear_levelOf {r p y : ℝ} {c : Triple ℝ} {space : EyeSpace} (hp₀ : 0 ≤ p) (hp₁ : p ≤ 1)
    (hy : 0 ≤ y) (hc : c = (chroma r p).map (y * ·))
    (hl : model.smallest ≤ (levelOf space c).value) : linear r p (levelOf space c) = c := by
  cases space with
  | perceived =>
    have hb := brightness_chroma_pos (r := r) hp₀ hp₁
    have hi : brightness c = y * brightness (chroma r p) := by rw [hc, brightness_map_mul hy]
    have hlevel : model.smallest ≤ brightness c ^ model.gammaInverse := hl
    rw [levelOf, linear_absolute hlevel, hi, rpow_gammaInverse_rpow_gamma (mul_nonneg hy hb.le),
      mul_div_cancel_right₀ _ hb.ne', ← hc]
  | normalized =>
    have hh := highest_chroma_pos (r := r) hp₀ hp₁
    have hj : highest c = y * highest (chroma r p) := by rw [hc, highest_map_mul hy]
    have hlevel : model.smallest ≤ highest c ^ model.gammaInverse := hl
    rw [levelOf, linear_relative hp₀ hp₁ hlevel, hj,
      rpow_gammaInverse_rpow_gamma (mul_nonneg hy hh.le), mul_div_cancel_right₀ _ hh.ne', ← hc]

/-! ### Black and grey -/

theorem set_black_zero (k : Channel) : black.set k 0 = black := by cases k <;> rfl

theorem soleLight_eq_zero (r : ℝ) {level : Level ℝ} (h : level.value = 0) :
    soleLight r level = 0 := by
  have hzero : (0 : ℝ) ^ model.gamma = 0 := Real.zero_rpow gamma_pos.ne'
  cases level with
  | absolute i => rw [soleLight, show i = 0 from h, max_self, hzero, zero_div]
  | relative j => rw [soleLight, show j = 0 from h, max_self, hzero]

theorem value_levelOf_black (space : EyeSpace) : (levelOf space black).value = 0 := by
  have h₁ := brightness_set_black .red le_rfl
  have h₂ := highest_set_black .red le_rfl
  rw [set_black_zero, mul_zero] at h₁
  rw [set_black_zero] at h₂
  cases space with
  | perceived => exact (congrArg (· ^ _) h₁).trans (Real.zero_rpow gammaInverse_pos.ne')
  | normalized => exact (congrArg (· ^ _) h₂).trans (Real.zero_rpow gammaInverse_pos.ne')

theorem linear_of_zero {r p : ℝ} {level : Level ℝ} (h : level.value = 0) :
    linear r p level = black := by
  have hd : Degenerate r p level.value := Or.inr (h ▸ smallest_pos)
  rw [linear, if_pos hd, soleLight_eq_zero r h, set_black_zero]

theorem linear_black (r p : ℝ) (space : EyeSpace) : linear r p (levelOf space black) = black :=
  linear_of_zero (value_levelOf_black space)

/-- The hue that greys are given has all its channels on a level. -/
theorem ratios_grey : ratios (1 / 2) 0 = Triple.replicate 1 := by
  have hs : (sector (1 / 2)).lowest = .red := sector_red (by norm_num) (by norm_num)
  have hp : place (1 / 2) = 1 / 2 := by
    rw [place, firstAnchor, hs, show Channel.red.anchors.1.index = 1 from rfl, Nat.cast_one]
    norm_num
  have hshare : shareOf (1 / 2) = 1 / 2 := by
    rw [shareOf, hp]
    exact bow_half (mixing_pos _)
  have hw : 0 < whiteLight (1 / 2) 0 := whiteLight_pos zero_lt_one
  have hl : lowestRatio (1 / 2) 0 = 1 := by
    rw [lowestRatio, zero_mul, add_zero, div_self hw.ne']
  have hf : firstRatio (1 / 2) 0 = 1 := by
    rw [firstRatio, hl, zero_mul, sub_zero, zero_div, zero_add]
  rw [ratios, hl, hf, firstAnchor, secondAnchor, hs]
  rfl

/-! ### The round trip -/

/-- One primary without any light of the others. -/
def IsPrimary (c : Triple ℝ) : Prop := ∃ k x, 0 < x ∧ c = black.set k x

/-- So little light of the anchors that the colour counts as grey. -/
def NearlyGrey (c : Triple ℝ) : Prop := 0 < (tint c).light ∧ (tint c).light < model.smallest

/-- No primary, but so close to the first anchor that the colour counts as one. -/
def NearlyPrimary (c : Triple ℝ) : Prop :=
  ¬ IsPrimary c ∧ share (tint c) < model.smallest ∧ 1 - model.smallest < purityOf c

/-- So little intensity that the colour counts as light of the first anchor alone. -/
def NearlyBlack (space : EyeSpace) (c : Triple ℝ) : Prop :=
  c ≠ black ∧ (levelOf space c).value < model.smallest

theorem purityOf_nonneg {c : Triple ℝ} (hc : ∀ k, 0 ≤ c.get k) : 0 ≤ purityOf c := by
  unfold purityOf
  split_ifs
  · exact le_rfl
  · exact purity_nonneg hc

theorem purityOf_le_one {c : Triple ℝ} (hc : ∀ k, 0 ≤ c.get k) : purityOf c ≤ 1 := by
  unfold purityOf
  split_ifs
  · exact zero_le_one
  · exact purity_le_one hc

section Sole

variable {c : Triple ℝ} (hc : ∀ k, 0 ≤ c.get k) (h₂ : c.get (tint c).second = 0)

include hc h₂

theorem white_eq_zero : (tint c).white = 0 :=
  le_antisymm (h₂ ▸ get_lowest_le c _) (hc _)

/-- Without light of the second anchor there is only that of the first. -/
theorem eq_set_first : c = black.set (tint c).first (c.get (tint c).first) := by
  have hl : lowest c ≠ (tint c).first := (Channel.fst_anchors_ne _).symm
  have hs : (lowest c).anchors.2 ≠ (tint c).first := (Channel.fst_anchors_ne_snd _).symm
  refine Triple.ext_get (Channel.forall_of_anchors (lowest c) ?_ ?_ ?_)
  · rw [Triple.get_set_of_ne _ _ hl, get_black]
    exact white_eq_zero hc h₂
  · exact (Triple.get_set_self _ _ _).symm
  · rw [Triple.get_set_of_ne _ _ hs, get_black]
    exact h₂

theorem share_eq_zero : share (tint c) = 0 := by
  have e : (tint c).secondLight = c.get (tint c).second - (tint c).white := rfl
  rw [share, e, h₂, white_eq_zero hc h₂, sub_zero, zero_div]

theorem purity_eq_one (h : 0 < (tint c).light) : purity (tint c) = 1 :=
  purity_of_white (white_eq_zero hc h₂) h

end Sole

theorem share_eq_one {c : Triple ℝ} (hprim : IsPrimary c) (h₂ : 0 < c.get (tint c).second) :
    share (tint c) = 1 := by
  obtain ⟨k, x, hx, hk⟩ := hprim
  have hother {l : Channel} (hl : l ≠ k) : c.get l = 0 := by
    rw [hk, Triple.get_set_of_ne _ _ hl, get_black]
  have hsecond : (tint c).second = k := by
    by_contra hne
    exact h₂.ne' (hother hne)
  have hw : c.get (lowest c) = 0 := hother (hsecond ▸ (Channel.snd_anchors_ne _).symm)
  have hf : (tint c).firstLight = 0 := by
    have e : (tint c).firstLight = c.get (tint c).first - c.get (lowest c) := rfl
    rw [e, hw, hother (hsecond ▸ Channel.fst_anchors_ne_snd _), sub_zero]
  have hs : 0 < (tint c).secondLight := by
    have e : (tint c).secondLight = c.get (tint c).second - c.get (lowest c) := rfl
    rwa [e, hw, sub_zero]
  have hl : (tint c).light = (tint c).firstLight + (tint c).secondLight := rfl
  rw [share, hl, hf, zero_add, div_self hs.ne']

/-- The channels of a grey are the light of the hue that greys are given. -/
theorem eq_map_chroma_grey {c : Triple ℝ} (h : (tint c).light = 0) :
    c = (chroma (1 / 2) 0).map ((tint c).white * ·) := by
  have h₁ : (tint c).firstLight = 0 :=
    le_antisymm (h ▸ le_add_of_nonneg_right (secondLight_nonneg c)) (firstLight_nonneg c)
  have h₂ : (tint c).secondLight = 0 :=
    le_antisymm (h ▸ le_add_of_nonneg_left (firstLight_nonneg c)) (secondLight_nonneg c)
  have hgrey : ∀ k, c.get k = (tint c).white :=
    Channel.forall_of_anchors (lowest c) rfl (sub_eq_zero.1 h₁) (sub_eq_zero.1 h₂)
  have hsole : ¬ Sole (1 / 2) 0 := fun h => by linarith [h.2, smallest_lt_half]
  refine Triple.ext_get fun k => ?_
  rw [chroma, if_neg hsole, ratios_grey, Triple.get_map, hgrey k]
  cases k <;> simp [Triple.replicate, Triple.get]

section Chroma

variable {c : Triple ℝ} (hc : ∀ k, 0 ≤ c.get k)

include hc

theorem eq_map_chroma_tint (hp : ¬ NearlyPrimary c) (hg : model.smallest ≤ (tint c).light) :
    ∃ y, 0 ≤ y ∧ c = (chroma (hue (tint c)) (purity (tint c))).map (y * ·) := by
  have h : 0 < (tint c).light := smallest_pos.trans_le hg
  rcases (hc (tint c).second).eq_or_lt with h₂ | h₂
  · have hsole : Sole (hue (tint c)) (purity (tint c)) := by
      rw [Sole, shareOf_hue h, share_eq_zero hc h₂.symm, purity_eq_one hc h₂.symm h]
      exact ⟨smallest_pos, sub_lt_self _ smallest_pos⟩
    refine ⟨c.get (tint c).first, hc _, ?_⟩
    rw [chroma, if_pos hsole, map_mul_set_black, mul_one, firstAnchor_hue h]
    exact eq_set_first hc h₂.symm
  · have hsole : ¬ Sole (hue (tint c)) (purity (tint c)) := by
      rintro ⟨hs, hpure⟩
      rw [shareOf_hue h] at hs
      refine hp ⟨fun hprim => ?_, hs, by rwa [purityOf, if_neg (not_lt.2 hg)]⟩
      rw [share_eq_one hprim h₂] at hs
      linarith [smallest_lt_half]
    refine ⟨c.get (tint c).second, h₂.le, Triple.ext_get fun k => ?_⟩
    rw [chroma, if_neg hsole, ratios_eq_map_div hc h h₂, Triple.get_map, Triple.get_map,
      mul_div_cancel₀ _ h₂.ne']

/-- Away from the guards, hue and purity give the channels of a colour up to their scale. -/
theorem exists_eq_map_chroma (hg : ¬ NearlyGrey c) (hp : ¬ NearlyPrimary c) :
    ∃ y, 0 ≤ y ∧ c = (chroma (hueOf c) (purityOf c)).map (y * ·) := by
  have h₀ : 0 ≤ (tint c).light := add_nonneg (firstLight_nonneg c) (secondLight_nonneg c)
  rw [hueOf, purityOf]
  by_cases h : (tint c).light < model.smallest
  · have hz : (tint c).light = 0 := (h₀.eq_or_lt.resolve_right fun hpos => hg ⟨hpos, h⟩).symm
    rw [if_pos h, if_pos h]
    exact ⟨_, hc _, eq_map_chroma_grey hz⟩
  · rw [if_neg h, if_neg h]
    exact eq_map_chroma_tint hc hp (not_lt.1 h)

/-- Away from the guards a linear colour is read back from the perceptual one. -/
theorem toLinear_read {space : EyeSpace} (hb : ¬ NearlyBlack space c) (e : Eye ℝ)
    (he : e.space = space) (hg : ¬ NearlyGrey c) (hp : ¬ NearlyPrimary c) :
    (read e c).toLinear = .ok c := by
  have hp₀ := purityOf_nonneg hc
  have hp₁ := purityOf_le_one hc
  have hr : (read e c).toLinear = .ok (linear (hueOf c) (purityOf c) (levelOf space c)) := by
    rw [← he, ← level_read]
    exact linearOfHue_eq hp₀ hp₁ _
  rw [hr]
  by_cases hl : (levelOf space c).value < model.smallest
  · have hblack : c = black := by_contra fun hne => hb ⟨hne, hl⟩
    rw [hblack, linear_black]
  · obtain ⟨y, hy, hcy⟩ := exists_eq_map_chroma hc hg hp
    rw [linear_levelOf hp₀ hp₁ hy hcy (not_lt.1 hl)]

end Chroma

end Exact

/-! ### Copies -/

open Exact

/-- A linear colour is copied into a perceptual one by reading its channels. -/
theorem copyTo_read {c : Triple ℝ} (hc : ∀ k, 0 ≤ c.get k) (e : Eye ℝ) :
    (Color.rgb ⟨.linear, c⟩).copyTo (.eye e) =
      { source := .rgb ⟨.linear, c⟩, target := .eye (read e c), fault := none } := by
  have h : (Color.copyRgbToEye ⟨.linear, c⟩).runOn e = (.ok (), read e c) := readLinear_eq hc e
  simp only [Color.copyTo, Color.changeEye, h, Color.faultOf]

/-- A linear colour copied into a perceptual colour and on into a linear one keeps its channels,
unless a guard of the conversion fires on it. -/
theorem copyTo_eye_copyTo_linear {c old : Triple ℝ} {e : Eye ℝ} (hc : ∀ k, 0 ≤ c.get k)
    (hg : ¬ NearlyGrey c) (hp : ¬ NearlyPrimary c) (hb : ¬ NearlyBlack e.space c) :
    ∃ seen : Eye ℝ, seen.space = e.space ∧
      (Color.rgb ⟨.linear, c⟩).copyTo (.eye e) =
        { source := .rgb ⟨.linear, c⟩, target := .eye seen, fault := none } ∧
      (Color.eye seen).copyTo (.rgb ⟨.linear, old⟩) =
        { source := .eye seen, target := .rgb ⟨.linear, c⟩, fault := none } := by
  have h : (Color.copyEyeToRgb (read e c)).runOn ⟨.linear, old⟩ = (.ok (), ⟨.linear, c⟩) := by
    rw [Color.copyEyeToRgb, toLinear_read hc hb e rfl hg hp]
    rfl
  refine ⟨read e c, rfl, copyTo_read hc e, ?_⟩
  simp only [Color.copyTo, Color.changeRgb, h, Color.faultOf]

/-- A green with half as much red is away from the guards. -/
theorem away_half_red : ¬ NearlyGrey ⟨1 / 2, 1, 0⟩ ∧ ¬ NearlyPrimary ⟨1 / 2, 1, 0⟩ := by
  have hlow : lowest ⟨1 / 2, 1, 0⟩ = .blue := by norm_num [lowest]
  have hlight : (tint ⟨1 / 2, 1, 0⟩).light = 3 / 2 := by
    rw [tint, hlow]
    norm_num [Triple.get, Channel.anchors]
  have hshare : share (tint ⟨1 / 2, 1, 0⟩) = 2 / 3 := by
    rw [share, hlight, tint, hlow]
    norm_num [Triple.get, Channel.anchors]
  have hsmall := smallest_lt_half
  constructor
  · rintro ⟨-, h⟩
    linarith
  · rintro ⟨-, h, -⟩
    linarith

theorem copyTo_eye_copyTo_linear_half_red :
    ∃ seen : Eye ℝ, seen.space = .normalized ∧
      (Color.rgb ⟨.linear, ⟨1 / 2, 1, 0⟩⟩).copyTo (.eye (Eye.blank .normalized)) =
        { source := .rgb ⟨.linear, ⟨1 / 2, 1, 0⟩⟩, target := .eye seen, fault := none } ∧
      (Color.eye seen).copyTo (.rgb ⟨.linear, black⟩) =
        { source := .eye seen, target := .rgb ⟨.linear, ⟨1 / 2, 1, 0⟩⟩, fault := none } := by
  have hlevel : (levelOf .normalized ⟨1 / 2, 1, 0⟩).value = 1 := by
    have h : highest ⟨1 / 2, 1, 0⟩ = 1 := by norm_num [highest]
    rw [levelOf, h, Real.one_rpow]
    rfl
  refine copyTo_eye_copyTo_linear (e := Eye.blank .normalized) ?_ away_half_red.1
    away_half_red.2 ?_
  · intro k
    cases k <;> norm_num [Triple.get]
  · rintro ⟨-, h⟩
    have h : (levelOf .normalized ⟨1 / 2, 1, 0⟩).value < model.smallest := h
    linarith [smallest_lt_half]

end Dichromat

end
