import Dichromat.Proofs.Color.Sector

/-!
# From perceptual colours to linear RGB and back

The channels of a hue and purity are white light and, beside it, light of the two anchors that adds
up to the purity (`blend`). So the tint that is read off them has the anchors of the sector, the hue
and the purity (`lowest_blend`, `hue_blend`, `purity_blend`). A normalized colour is hence read back
from its linear channels as it was, as long as no guard of the conversions fires (`read_linear`);
only the hue at the upper end of the wheel, red once more, comes back as the lower end (`blend_one`).
-/

noncomputable section

namespace Dichromat

namespace Exact

/-! ### Channels up to a scale -/

theorem map_mul_map_mul (y z : ℝ) (c : Triple ℝ) :
    (c.map (z * ·)).map (y * ·) = c.map (y * z * ·) := by
  refine Triple.ext_get fun k => ?_
  rw [Triple.get_map, Triple.get_map, Triple.get_map, mul_assoc]

/-- Channels that are those of another colour up to a scale. -/
def Proportional (c c' : Triple ℝ) : Prop := ∃ y, 0 < y ∧ c = c'.map (y * ·)

theorem Proportional.of_eq {c c' : Triple ℝ} (h : c = c') : Proportional c c' := by
  refine ⟨1, one_pos, ?_⟩
  simp only [one_mul]
  exact h

theorem Proportional.symm {c c' : Triple ℝ} : Proportional c c' → Proportional c' c := by
  rintro ⟨y, hy, rfl⟩
  refine ⟨y⁻¹, inv_pos.2 hy, ?_⟩
  rw [map_mul_map_mul, inv_mul_cancel₀ hy.ne']
  simp only [one_mul]
  rfl

theorem Proportional.trans {c c' c'' : Triple ℝ} :
    Proportional c c' → Proportional c' c'' → Proportional c c'' := by
  rintro ⟨y, hy, rfl⟩ ⟨z, hz, rfl⟩
  exact ⟨y * z, mul_pos hy hz, map_mul_map_mul y z c''⟩

variable {r p y : ℝ}

/-! ### The share of a hue -/

theorem bend_shareOf (r : ℝ) : bend (firstAnchor r) (secondAnchor r) (shareOf r) = place r :=
  bend_unbend (place_nonneg r)

theorem shareOf_pos (h : 0 < place r) : 0 < shareOf r := bow_pos h

theorem shareOf_lt_one (h : place r < 1) : shareOf r < 1 := by
  refine (shareOf_le_one r).lt_of_ne fun hone => h.ne ?_
  rw [← bend_shareOf, hone, bend, bow_one]

/-- The thirds of the wheel, by their lowest channel. -/
theorem sector_cases (r : ℝ) : ((sector r).lowest = .blue ∧ r ≤ 1 / 3) ∨
    ((sector r).lowest = .red ∧ 1 / 3 < r ∧ r ≤ 2 / 3) ∨
    ((sector r).lowest = .green ∧ 2 / 3 < r) := by
  rcases le_or_gt r (1 / 3) with h₁ | h₁
  · exact Or.inl ⟨sector_blue h₁, h₁⟩
  · rcases le_or_gt r (2 / 3) with h₂ | h₂
    · exact Or.inr (Or.inl ⟨sector_red h₁ h₂, h₁, h₂⟩)
    · exact Or.inr (Or.inr ⟨sector_green h₂, h₂⟩)

/-- On the wheel no place has to be cut off. -/
theorem place_eq (hr : r ∈ Set.Icc (0 : ℝ) 1) : place r = 3 * r - (firstAnchor r).index := by
  have hmem : 3 * r - (firstAnchor r).index ∈ Set.Icc (0 : ℝ) 1 := by
    obtain ⟨h₀, h₁⟩ := hr
    unfold firstAnchor
    rcases sector_cases r with ⟨hs, h⟩ | ⟨hs, h, h'⟩ | ⟨hs, h⟩ <;> rw [hs] <;>
      simp only [Channel.anchors, Channel.index, Set.mem_Icc] <;> push_cast <;>
      constructor <;> linarith
  rw [place, max_eq_left hmem.1, min_eq_left hmem.2]

/-! ### White light and the light of the anchors -/

/-- The channels of a hue and purity, in units in which all that is seen of the white light and of
the light beside it is what the anchors tint. -/
def blend (r p : ℝ) : Triple ℝ :=
  ((black.set (sector r).lowest (whiteLight r p)).set (firstAnchor r)
    (whiteLight r p + p * (1 - shareOf r))).set (secondAnchor r) (whiteLight r p + p * shareOf r)

theorem get_blend_lowest (r p : ℝ) : (blend r p).get (sector r).lowest = whiteLight r p := by
  unfold blend firstAnchor secondAnchor
  cases (sector r).lowest <;> rfl

theorem get_blend_first (r p : ℝ) :
    (blend r p).get (firstAnchor r) = whiteLight r p + p * (1 - shareOf r) := by
  unfold blend firstAnchor secondAnchor
  cases (sector r).lowest <;> rfl

theorem get_blend_second (r p : ℝ) :
    (blend r p).get (secondAnchor r) = whiteLight r p + p * shareOf r :=
  Triple.get_set_self _ _ _

/-- The ratios are the same channels in units of the second anchor. -/
theorem ratios_eq_map_blend (hu : whiteLight r p + p * shareOf r ≠ 0) :
    ratios r p = (blend r p).map ((whiteLight r p + p * shareOf r)⁻¹ * ·) := by
  refine Triple.ext_get (Channel.forall_of_anchors (sector r).lowest ?_ ?_ ?_)
  · rw [get_ratios_lowest, Triple.get_map, get_blend_lowest, lowestRatio, div_eq_inv_mul]
  · have hr := get_ratios_first r p
    have hb := get_blend_first r p
    rw [Triple.get_map]
    refine hr.trans (Eq.trans ?_ (congrArg _ hb).symm)
    rw [firstRatio, lowestRatio, ← add_div, div_eq_inv_mul]
    congr 1
    ring
  · have hr := get_ratios_second r p
    have hb := get_blend_second r p
    rw [Triple.get_map]
    refine hr.trans (Eq.trans ?_ (congrArg _ hb).symm)
    rw [inv_mul_cancel₀ hu]

section Purity

variable (hp₀ : 0 ≤ p) (hp₁ : p ≤ 1)

include hp₀ hp₁

/-- Where no guard fires the channels of a hue and purity are a blend. -/
theorem proportional_blend (hsole : ¬ Sole r p) : Proportional (chroma r p) (blend r p) := by
  have hu : 0 < whiteLight r p + p * shareOf r :=
    light_pos hp₀ hp₁ (mt (degenerate_iff_sole le_rfl).1 hsole)
  exact ⟨_, inv_pos.2 hu, by rw [chroma, if_neg hsole, ratios_eq_map_blend hu.ne']⟩

/-- Where more than the first anchor gives light, the channels of an intensity that is not noise are
the blend, up to a scale. -/
theorem exists_linear_eq_map_blend {level : Level ℝ} (hl : model.smallest ≤ level.value)
    (hsole : ¬ Sole r p) : ∃ y, 0 ≤ y ∧ linear r p level = (blend r p).map (y * ·) := by
  obtain ⟨y, hy, h⟩ := exists_linear_eq_map (r := r) hp₀ hp₁ hl
  obtain ⟨z, hz, hchroma⟩ := proportional_blend hp₀ hp₁ hsole
  exact ⟨y * z, mul_nonneg hy hz.le, by rw [h, hchroma, map_mul_map_mul]⟩

/-- No channel of a blend is above 1: no anchor tints more than all of its light. -/
theorem highest_blend_le_one : highest (blend r p) ≤ 1 := by
  have hs₀ := shareOf_nonneg r
  have hs₁ := sub_nonneg.2 (shareOf_le_one r)
  have hp : 0 ≤ 1 - p := sub_nonneg.2 hp₁
  have hwhite : whiteLight r p ≤ 1 - p := by
    refine mul_le_of_le_one_right hp ?_
    have h₁ := mul_le_of_le_one_right hs₀ (tinting_le_one (secondAnchor r))
    have h₂ := mul_le_of_le_one_right hs₁ (tinting_le_one (firstAnchor r))
    linarith
  have hfirst := mul_le_of_le_one_right hp₀ (sub_le_self 1 hs₀)
  have hsecond := mul_le_of_le_one_right hp₀ (shareOf_le_one r)
  rw [highest_le_iff]
  refine Channel.forall_of_anchors (sector r).lowest ?_ ?_ ?_
  · rw [get_blend_lowest]
    linarith
  · refine (get_blend_first r p).trans_le ?_
    linarith
  · refine (get_blend_second r p).trans_le ?_
    linarith

end Purity

/-! ### The tint of a blend -/

/-- Of equal channels blue comes first, and green last. -/
theorem lowest_eq_of_anchors {c : Triple ℝ} {k : Channel} (h₁ : c.get k ≤ c.get k.anchors.1)
    (h₂ : c.get k ≤ c.get k.anchors.2) (hgreen : k = .green → c.get k < c.get k.anchors.1)
    (hblue : k ≠ .blue → c.get k < c.get k.anchors.2) : lowest c = k := by
  cases k with
  | blue =>
    have h₁ : c.blue ≤ c.red := h₁
    have h₂ : c.blue ≤ c.green := h₂
    rw [lowest, if_neg (not_lt.2 h₁), if_neg (not_lt.2 h₂), ite_self]
  | red =>
    have h₁ : c.red ≤ c.green := h₁
    have h₂ : c.red < c.blue := hblue (by decide)
    rw [lowest, if_pos h₁, if_pos h₂]
  | green =>
    have h₁ : c.green < c.blue := hgreen rfl
    have h₂ : c.green < c.red := hblue (by decide)
    rw [lowest, if_neg (not_le.2 h₂), if_pos h₁]

section Tint

variable (hr : r ∈ Set.Ico (0 : ℝ) 1) (hp : 0 < p) (hy : 0 < y)

include hr hp hy

/-- Below its upper end, a hue has light of the second anchor at the borders where it needs it. -/
theorem lowest_blend : lowest ((blend r p).map (y * ·)) = (sector r).lowest := by
  obtain ⟨hr₀, hr₁⟩ := hr
  have hplace := place_eq ⟨hr₀, hr₁.le⟩
  have hs₀ := mul_nonneg hp.le (shareOf_nonneg r)
  have hs₁ := mul_nonneg hp.le (sub_nonneg.2 (shareOf_le_one r))
  have hlowest := get_blend_lowest r p
  have hfirst := get_blend_first r p
  have hsecond := get_blend_second r p
  unfold firstAnchor at hplace hfirst
  unfold secondAnchor at hsecond
  refine lowest_eq_of_anchors ?_ ?_ (fun hk => ?_) fun hk => ?_ <;>
    simp only [Triple.get_map, hlowest, hfirst, hsecond]
  · exact mul_le_mul_of_nonneg_left (le_add_of_nonneg_right hs₁) hy.le
  · exact mul_le_mul_of_nonneg_left (le_add_of_nonneg_right hs₀) hy.le
  · have hlt : place r < 1 := by
      rw [hplace, hk]
      simp only [Channel.anchors, Channel.index]
      push_cast
      linarith
    have h := mul_pos hp (sub_pos.2 (shareOf_lt_one hlt))
    exact mul_lt_mul_of_pos_left (lt_add_of_pos_right _ h) hy
  · have hpos : 0 < place r := by
      rcases sector_cases r with ⟨hs, -⟩ | ⟨hs, h, -⟩ | ⟨hs, h⟩
      · exact absurd hs hk
      all_goals
        rw [hplace, hs]
        simp only [Channel.anchors, Channel.index]
        push_cast
        linarith
    exact mul_lt_mul_of_pos_left (lt_add_of_pos_right _ (mul_pos hp (shareOf_pos hpos))) hy

/-- The anchors give the light of the purity, in the shares of the hue. -/
theorem tint_blend : tint ((blend r p).map (y * ·)) =
    { first := firstAnchor r, second := secondAnchor r, white := y * whiteLight r p
      firstLight := y * (p * (1 - shareOf r)), secondLight := y * (p * shareOf r)
      light := y * p } := by
  have hlowest : ((blend r p).map (y * ·)).get (sector r).lowest = y * whiteLight r p := by
    rw [Triple.get_map, get_blend_lowest]
  have hfirst : ((blend r p).map (y * ·)).get (sector r).lowest.anchors.1 =
      y * (whiteLight r p + p * (1 - shareOf r)) := by
    rw [Triple.get_map]
    exact congrArg _ (get_blend_first r p)
  have hsecond : ((blend r p).map (y * ·)).get (sector r).lowest.anchors.2 =
      y * (whiteLight r p + p * shareOf r) := by
    rw [Triple.get_map]
    exact congrArg _ (get_blend_second r p)
  rw [tint, lowest_blend hr hp hy, hlowest, hfirst, hsecond, Tint.mk.injEq]
  refine ⟨rfl, rfl, rfl, ?_, ?_, ?_⟩ <;> ring

theorem hue_blend : hue (tint ((blend r p).map (y * ·))) = r := by
  have hshare : share (tint ((blend r p).map (y * ·))) = shareOf r := by
    rw [share, tint_blend hr hp hy]
    show y * (p * shareOf r) / (y * p) = shareOf r
    rw [← mul_assoc, mul_div_cancel_left₀ _ (mul_pos hy hp).ne']
  rw [hue, hshare, tint_blend hr hp hy]
  show ((firstAnchor r).index + bend (firstAnchor r) (secondAnchor r) (shareOf r)) / 3 = r
  rw [bend_shareOf, place_eq ⟨hr.1, hr.2.le⟩]
  ring

theorem purity_blend : purity (tint ((blend r p).map (y * ·))) = p := by
  have hs₀ := shareOf_nonneg r
  have hs₁ := sub_nonneg.2 (shareOf_le_one r)
  -- what the light of the hue tints, relative to it
  obtain ⟨m, hm⟩ : ∃ m, shareOf r * model.tinting.get (secondAnchor r) +
      (1 - shareOf r) * model.tinting.get (firstAnchor r) = m := ⟨_, rfl⟩
  have hpos : 0 < m := by
    rw [← hm]
    rcases hs₀.eq_or_lt with h | h
    · rw [← h, zero_mul, zero_add, sub_zero, one_mul]
      exact tinting_pos _
    · exact add_pos_of_pos_of_nonneg (mul_pos h (tinting_pos _))
        (mul_nonneg hs₁ (tinting_pos _).le)
  have hwhite : whiteLight r p = (1 - p) * m := congrArg ((1 - p) * ·) hm
  have htinted : tinted (tint ((blend r p).map (y * ·))) = y * p * m := by
    rw [tinted, tint_blend hr hp hy, ← hm]
    ring
  have hw : (tint ((blend r p).map (y * ·))).white = y * ((1 - p) * m) := by
    rw [tint_blend hr hp hy, hwhite]
  have hseen : y * ((1 - p) * m) + y * p * m = y * m := by ring
  rw [purity, htinted, hw, hseen, mul_right_comm, mul_div_cancel_left₀ _ (mul_pos hy hpos).ne']

end Tint

/-! ### The ends of the wheel -/

theorem sector_zero : (sector 0).lowest = .blue := sector_blue (by norm_num)

theorem sector_one : (sector 1).lowest = .green := sector_green (by norm_num)

theorem shareOf_zero : shareOf 0 = 0 := by
  have hplace : place 0 = 0 := by
    rw [place_eq ⟨le_rfl, zero_le_one⟩, firstAnchor, sector_zero]
    norm_num [Channel.anchors, Channel.index]
  rw [shareOf, hplace, unbend, bow, if_pos (by norm_num), mul_zero,
    Real.zero_rpow (mixingInverse_pos _).ne', zero_div]

theorem shareOf_one : shareOf 1 = 1 := by
  have hplace : place 1 = 1 := by
    rw [place_eq ⟨zero_le_one, le_rfl⟩, firstAnchor, sector_one]
    norm_num [Channel.anchors, Channel.index]
  rw [shareOf, hplace, unbend, bow_one]

/-- Red ends the wheel as it begins it. -/
theorem blend_one (p : ℝ) : blend 1 p = blend 0 p := by
  have hwhite : whiteLight 1 p = whiteLight 0 p := by
    rw [whiteLight, whiteLight, firstAnchor, firstAnchor, secondAnchor, secondAnchor, sector_zero,
      sector_one, shareOf_zero, shareOf_one, sub_self, sub_zero, zero_mul, zero_mul, zero_add,
      add_zero]
    rfl
  rw [blend, blend, firstAnchor, firstAnchor, secondAnchor, secondAnchor, sector_zero, sector_one,
    shareOf_zero, shareOf_one, hwhite, sub_self, sub_zero, mul_zero, add_zero]
  rfl

/-! ### Reading back -/

/-- What a hue on the wheel is read back as. -/
def wound (r : ℝ) : ℝ := if r = 1 then 0 else r

theorem wound_mem (hr : r ∈ Set.Icc (0 : ℝ) 1) : wound r ∈ Set.Ico (0 : ℝ) 1 := by
  unfold wound
  split_ifs with h
  · exact ⟨le_rfl, zero_lt_one⟩
  · exact ⟨hr.1, hr.2.lt_of_ne h⟩

theorem exists_wound_eq_add (r : ℝ) : ∃ turns : ℤ, wound r = r + turns := by
  unfold wound
  split_ifs with h
  · exact ⟨-1, by rw [h]; norm_num⟩
  · exact ⟨0, by rw [Int.cast_zero, add_zero]⟩

theorem blend_wound (r p : ℝ) : blend (wound r) p = blend r p := by
  unfold wound
  split_ifs with h
  · rw [h, blend_one]
  · rfl

/-- Hue and purity of a blend that does not count as grey. -/
theorem hueOf_blend (hr : r ∈ Set.Icc (0 : ℝ) 1) (hp : 0 < p) (hy : 0 < y)
    (hlight : model.smallest ≤ y * p) :
    hueOf ((blend r p).map (y * ·)) = wound r ∧ purityOf ((blend r p).map (y * ·)) = p := by
  have hmem := wound_mem hr
  rw [← blend_wound]
  have hgrey : ¬ (tint ((blend (wound r) p).map (y * ·))).light < model.smallest := by
    rw [tint_blend hmem hp hy]
    exact not_lt.2 hlight
  rw [hueOf, purityOf, if_neg hgrey, if_neg hgrey]
  exact ⟨hue_blend hmem hp hy, purity_blend hmem hp hy⟩

/-- A normalized colour is read back from its linear channels, if it is neither too pure nor too
faint for the guards. -/
theorem read_linear {j : ℝ} (hr : r ∈ Set.Icc (0 : ℝ) 1) (hp₀ : 0 < p)
    (hp₁ : p ≤ 1 - model.smallest) (hj : model.smallest ≤ j)
    (hlight : model.smallest ≤ j ^ model.gamma * p) :
    hueOf (linear r p (.relative j)) = wound r ∧ purityOf (linear r p (.relative j)) = p ∧
      highest (linear r p (.relative j)) ^ model.gammaInverse = j := by
  have hone : p ≤ 1 := hp₁.trans (sub_le_self 1 smallest_pos.le)
  have hsole : ¬ Sole r p := fun h => not_lt.2 hp₁ h.2
  have hj₀ : 0 ≤ j := smallest_pos.le.trans hj
  have hhighest : highest (linear r p (.relative j)) = j ^ model.gamma := by
    rw [highest_linear_relative hp₀.le hone, max_eq_left hj₀]
  obtain ⟨y, hy, hlinear⟩ :
      ∃ y, 0 ≤ y ∧ linear r p (.relative j) = (blend r p).map (y * ·) :=
    exists_linear_eq_map_blend hp₀.le hone hj hsole
  -- the scale is at least the light, since no channel of the blend is above 1
  have hscale : j ^ model.gamma ≤ y := by
    rw [← hhighest, hlinear, highest_map_mul hy]
    exact mul_le_of_le_one_right hy (highest_blend_le_one hp₀.le hone)
  have hpos : 0 < y := (Real.rpow_pos_of_pos (smallest_pos.trans_le hj) _).trans_le hscale
  obtain ⟨hhue, hpurity⟩ :=
    hueOf_blend hr hp₀ hpos (hlight.trans (mul_le_mul_of_nonneg_right hscale hp₀.le))
  rw [← hlinear] at hhue hpurity
  exact ⟨hhue, hpurity, by rw [hhighest, rpow_gamma_rpow_gammaInverse hj₀]⟩

end Exact

end Dichromat

end
