import Dichromat.Proofs.Color.Limit
import Dichromat.Proofs.Color.RoundTrip

/-!
# From one perceptual space to the other

The perceived and the normalized intensity of a colour differ by the limit of its hue and purity.
A linear colour that is copied into a perceived colour and on into a normalized one ends up as if it
were copied into the normalized one at once (`brightness_rpow_div_limitOf`), and a colour copied
into the other space and back is the one it was, with one absolute intensity all the way
(`copies_between_spaces`).
-/

noncomputable section

namespace Dichromat

open Exact

namespace Eye

/-! ### Copies into the other space -/

/-- A perceived colour in terms of its limit. -/
def toNormalized (e : Eye ℝ) : Eye ℝ :=
  { e with space := .normalized, normalized := e.perceived / limitOf e.hue e.purity }

/-- A normalized colour with its absolute intensity. -/
def toPerceived (e : Eye ℝ) : Eye ℝ :=
  { e.known with space := .perceived, perceived := e.normalized * limitOf e.hue e.purity }

section Limit

variable {e t : Eye ℝ} {limit : ℝ} (hlimit : e.limit = .ok limit)

include hlimit

theorem copyTo_normalized_of_limit (hzero : limit ≠ 0) (hspace : e.space = .perceived)
    (ht : t.space = .normalized) : (Color.eye e).copyTo (.eye t) =
      { source := .eye e.withKnownLimit
        target := .eye { e with space := .normalized, normalized := e.perceived / limit }
        fault := none } := by
  have h : (copyEye e).runOn t =
      (.ok (), { e with space := .normalized, normalized := e.perceived / limit }) := by
    simp only [copyEye, Update.runOn_bind, Update.runOn_get, Update.runOn_set, ht, hspace, hlimit,
      calc_div _ hzero, Update.runOn_liftM, Update.runOn_modify]
  simp only [Color.copyTo, Color.changeEye, h, Color.faultOf, ht, hspace, and_self, if_true]

theorem copyTo_perceived_of_limit (hspace : e.space = .normalized) (ht : t.space = .perceived) :
    (Color.eye e).copyTo (.eye t) =
      { source := .eye e
        target := .eye { e with
          space := .perceived, perceived := e.normalized * limit
          knownLimit := limit, knownHue := e.hue, knownPurity := e.purity }
        fault := none } := by
  have hread := readLimit_of_limit
    ((limit_of_intensity e .perceived e.perceived e.normalized).trans hlimit)
  have h : (copyEye e).runOn t =
      (.ok (), { e with
        space := .perceived, perceived := e.normalized * limit
        knownLimit := limit, knownHue := e.hue, knownPurity := e.purity }) := by
    simp only [copyEye, Update.runOn_bind, Update.runOn_get, Update.runOn_set, ht, hspace, hread,
      calc_mul, Update.runOn_liftM, Update.runOn_modify]
  simp only [Color.copyTo, Color.changeEye, h, Color.faultOf, ht, reduceCtorEq, false_and, if_false]

theorem intensity_of_limit (hspace : e.space = .normalized) :
    e.intensity = .ok (e.normalized * limit) := by
  simp only [intensity, readIntensity, Update.runOn_bind, Update.runOn_get, hspace,
    readLimit_of_limit hlimit, calc_mul]
  rfl

end Limit

section Copies

variable {e t : Eye ℝ} (he : e.Faithful) (hp₀ : 0 ≤ e.purity) (hp₁ : e.purity ≤ 1)

include he hp₀ hp₁

theorem copyTo_normalized (hspace : e.space = .perceived) (ht : t.space = .normalized) :
    (Color.eye e).copyTo (.eye t) =
      { source := .eye e.withKnownLimit, target := .eye e.toNormalized, fault := none } :=
  copyTo_normalized_of_limit (limit_eq he hp₀ hp₁) (limitOf_pos hp₀ hp₁).ne' hspace ht

theorem copyTo_perceived (hspace : e.space = .normalized) (ht : t.space = .perceived) :
    (Color.eye e).copyTo (.eye t) =
      { source := .eye e, target := .eye e.toPerceived, fault := none } :=
  copyTo_perceived_of_limit (limit_eq he hp₀ hp₁) hspace ht

/-! ### Absolute intensities -/

omit he hp₀ hp₁ in
theorem intensity_perceived (hspace : e.space = .perceived) : e.intensity = .ok e.perceived := by
  simp only [intensity, readIntensity, Update.runOn_bind, Update.runOn_get, hspace]
  rfl

theorem intensity_normalized (hspace : e.space = .normalized) :
    e.intensity = .ok (e.normalized * limitOf e.hue e.purity) :=
  intensity_of_limit (limit_eq he hp₀ hp₁) hspace

end Copies

end Eye

/-! ### Two ways to the normalized intensity -/

namespace Exact

/-- Away from the guards the highest channel tells the same intensity as the brightness does in
terms of the limit. -/
theorem brightness_rpow_div_limitOf {c : Triple ℝ} (hc : ∀ k, 0 ≤ c.get k) (hg : ¬ NearlyGrey c)
    (hp : ¬ NearlyPrimary c) :
    brightness c ^ model.gammaInverse / limitOf (hueOf c) (purityOf c) =
      highest c ^ model.gammaInverse := by
  obtain ⟨y, hy, hcy⟩ := exists_eq_map_chroma hc hg hp
  have hb := brightness_chroma_pos (r := hueOf c) (purityOf_nonneg hc) (purityOf_le_one hc)
  have hh := highest_chroma_pos (r := hueOf c) (purityOf_nonneg hc) (purityOf_le_one hc)
  have hi : brightness c = y * brightness (chroma (hueOf c) (purityOf c)) :=
    (congrArg brightness hcy).trans (brightness_map_mul hy _)
  have hj : highest c = y * highest (chroma (hueOf c) (purityOf c)) :=
    (congrArg highest hcy).trans (highest_map_mul hy _)
  rw [limitOf, ← Real.div_rpow (brightness_nonneg hc) (div_pos hb hh).le, hi, hj,
    div_div_eq_mul_div, mul_right_comm, mul_div_cancel_right₀ _ hb.ne']

end Exact

namespace Eye

/-- So both ways from linear channels end at one normalized intensity. -/
theorem normalized_toNormalized_read {c : Triple ℝ} {n s : Eye ℝ} (hc : ∀ k, 0 ≤ c.get k)
    (hg : ¬ NearlyGrey c) (hp : ¬ NearlyPrimary c) (hn : n.space = .normalized)
    (hs : s.space = .perceived) :
    (read s c).toNormalized.normalized = (read n c).normalized := by
  have hperceived : (read s c).perceived = Exact.brightness c ^ model.gammaInverse := if_pos hs
  have hnormalized : (read n c).normalized = Exact.highest c ^ model.gammaInverse := if_pos hn
  rw [hnormalized, ← brightness_rpow_div_limitOf hc hg hp, ← hperceived]
  rfl

/-! ### Into the other space and back -/

/-- A colour that is copied into another one and from there into a third one comes back as it was,
with one absolute intensity all the way. -/
structure ComesBack (e s t other back : Eye ℝ) (x : ℝ) : Prop where
  target : ((Color.eye e).copyTo (.eye s)).target = .eye other
  fault : ((Color.eye e).copyTo (.eye s)).fault = none
  target_back : ((Color.eye other).copyTo (.eye t)).target = .eye back
  fault_back : ((Color.eye other).copyTo (.eye t)).fault = none
  hue : back.hue = e.hue
  purity : back.purity = e.purity
  level : back.level = e.level
  intensity : e.intensity = .ok x
  intensity_other : other.intensity = .ok x
  intensity_back : back.intensity = .ok x

section ComesBack

variable {e s t : Eye ℝ} (he : e.Faithful) (hp₀ : 0 ≤ e.purity) (hp₁ : e.purity ≤ 1)

include he hp₀ hp₁

theorem comesBack_perceived (hspace : e.space = .perceived) (hs : s.space = .normalized)
    (ht : t.space = .perceived) :
    ComesBack e s t e.toNormalized e.toNormalized.toPerceived e.perceived := by
  have hother : e.toNormalized.Faithful := he
  have hvalue : e.toNormalized.normalized * limitOf e.hue e.purity = e.perceived :=
    div_mul_cancel₀ _ (limitOf_pos hp₀ hp₁).ne'
  have h₁ := copyTo_normalized he hp₀ hp₁ hspace hs
  have h₂ := copyTo_perceived hother hp₀ hp₁ rfl ht
  refine ⟨by rw [h₁], by rw [h₁], by rw [h₂], by rw [h₂], rfl, rfl, ?_, intensity_perceived hspace,
    ?_, ?_⟩
  · rw [Eye.level, Eye.level, hspace]
    exact congrArg Level.absolute hvalue
  · exact (intensity_normalized hother hp₀ hp₁ rfl).trans (congrArg Except.ok hvalue)
  · exact (intensity_perceived rfl).trans (congrArg Except.ok hvalue)

theorem comesBack_normalized (hspace : e.space = .normalized) (hs : s.space = .perceived)
    (ht : t.space = .normalized) : ComesBack e s t e.toPerceived e.toPerceived.toNormalized
      (e.normalized * limitOf e.hue e.purity) := by
  have hother : e.toPerceived.Faithful := faithful_known hp₀ hp₁
  have hback : e.toPerceived.toNormalized.Faithful := hother
  have hvalue : e.toPerceived.perceived / limitOf e.hue e.purity = e.normalized :=
    mul_div_cancel_right₀ _ (limitOf_pos hp₀ hp₁).ne'
  have h₁ := copyTo_perceived he hp₀ hp₁ hspace hs
  have h₂ := copyTo_normalized hother hp₀ hp₁ rfl ht
  refine ⟨by rw [h₁], by rw [h₁], by rw [h₂], by rw [h₂], rfl, rfl, ?_,
    intensity_normalized he hp₀ hp₁ hspace, intensity_perceived rfl, ?_⟩
  · rw [Eye.level, Eye.level, hspace]
    exact congrArg Level.relative hvalue
  · refine (intensity_normalized hback hp₀ hp₁ rfl).trans (congrArg Except.ok ?_)
    exact congrArg (· * limitOf e.hue e.purity) hvalue

theorem exists_comesBack (hs : s.space ≠ e.space) (ht : t.space = e.space) :
    ∃ other back x, ComesBack e s t other back x := by
  cases hspace : e.space with
  | perceived =>
    have hs : s.space = .normalized := by
      cases h : s.space
      · exact absurd (h.trans hspace.symm) hs
      · rfl
    exact ⟨_, _, _, comesBack_perceived he hp₀ hp₁ hspace hs (ht.trans hspace)⟩
  | normalized =>
    have hs : s.space = .perceived := by
      cases h : s.space
      · rfl
      · exact absurd (h.trans hspace.symm) hs
    exact ⟨_, _, _, comesBack_normalized he hp₀ hp₁ hspace hs (ht.trans hspace)⟩

end ComesBack

end Eye

/-- Two ways lead from linear channels to a normalized colour, straight or over the perceived
intensity, and they end at the same one; a copy into the other perceptual space and back restores
hue, purity and intensity, and all three colours have one absolute intensity. -/
theorem copies_between_spaces :
    (∀ (c : Triple ℝ) (n s t : Eye ℝ), (∀ k, 0 ≤ c.get k) → ¬ NearlyGrey c → ¬ NearlyPrimary c →
      n.space = .normalized → s.space = .perceived → s.Faithful → t.space = .normalized →
      ∃ direct seen via limit,
        (Color.rgb ⟨.linear, c⟩).copyTo (.eye n) =
          { source := .rgb ⟨.linear, c⟩, target := .eye direct, fault := none } ∧
        (Color.rgb ⟨.linear, c⟩).copyTo (.eye s) =
          { source := .rgb ⟨.linear, c⟩, target := .eye seen, fault := none } ∧
        (Color.eye seen).copyTo (.eye t) =
          { source := .eye seen.withKnownLimit, target := .eye via, fault := none } ∧
        seen.limit = .ok limit ∧ via.normalized = seen.perceived / limit ∧
        via.hue = direct.hue ∧ via.purity = direct.purity ∧
        via.normalized = direct.normalized) ∧
    (∀ e s t : Eye ℝ, e.Faithful → 0 ≤ e.purity → e.purity ≤ 1 →
      s.space ≠ e.space → t.space = e.space →
      ∃ other back x,
        ((Color.eye e).copyTo (.eye s)).target = .eye other ∧
        ((Color.eye e).copyTo (.eye s)).fault = none ∧
        ((Color.eye other).copyTo (.eye t)).target = .eye back ∧
        ((Color.eye other).copyTo (.eye t)).fault = none ∧
        back.hue = e.hue ∧ back.purity = e.purity ∧ back.level = e.level ∧
        e.intensity = .ok x ∧ other.intensity = .ok x ∧ back.intensity = .ok x) := by
  refine ⟨fun c n s t hc hg hp hn hs hfaithful ht => ?_, fun e s t he hp₀ hp₁ hs ht => ?_⟩
  · have hseen : (read s c).Faithful := hfaithful
    have hp₀ : 0 ≤ (read s c).purity := purityOf_nonneg hc
    have hp₁ : (read s c).purity ≤ 1 := purityOf_le_one hc
    exact ⟨read n c, read s c, (read s c).toNormalized, _, copyTo_read hc n, copyTo_read hc s,
      Eye.copyTo_normalized hseen hp₀ hp₁ hs ht, Eye.limit_eq hseen hp₀ hp₁, rfl, rfl, rfl,
      Eye.normalized_toNormalized_read hc hg hp hn hs⟩
  · obtain ⟨other, back, x, h⟩ := Eye.exists_comesBack he hp₀ hp₁ hs ht
    exact ⟨other, back, x, h.target, h.fault, h.target_back, h.fault_back, h.hue, h.purity, h.level,
      h.intensity, h.intensity_other, h.intensity_back⟩

/-- A green with half as much red, and that colour at half of its highest intensity. -/
theorem copies_between_spaces_half_red :
    (∃ (direct seen via : Eye ℝ) (limit : ℝ),
      (Color.rgb ⟨.linear, ⟨1 / 2, 1, 0⟩⟩).copyTo (.eye (Eye.blank .normalized)) =
        { source := .rgb ⟨.linear, ⟨1 / 2, 1, 0⟩⟩, target := .eye direct, fault := none } ∧
      (Color.rgb ⟨.linear, ⟨1 / 2, 1, 0⟩⟩).copyTo (.eye (Eye.blank .perceived)) =
        { source := .rgb ⟨.linear, ⟨1 / 2, 1, 0⟩⟩, target := .eye seen, fault := none } ∧
      (Color.eye seen).copyTo (.eye (Eye.blank .normalized)) =
        { source := .eye seen.withKnownLimit, target := .eye via, fault := none } ∧
      seen.limit = .ok limit ∧ via.normalized = seen.perceived / limit ∧
      via.hue = direct.hue ∧ via.purity = direct.purity ∧ via.normalized = direct.normalized) ∧
    ∃ e other back : Eye ℝ, ∃ x, e.space = .normalized ∧ e.hue = 1 / 6 ∧ e.purity = 1 ∧
      e.normalized = 1 / 2 ∧ e.Faithful ∧
      ((Color.eye e).copyTo (.eye (Eye.blank .perceived))).target = .eye other ∧
      ((Color.eye e).copyTo (.eye (Eye.blank .perceived))).fault = none ∧
      ((Color.eye other).copyTo (.eye (Eye.blank .normalized))).target = .eye back ∧
      ((Color.eye other).copyTo (.eye (Eye.blank .normalized))).fault = none ∧
      back.hue = e.hue ∧ back.purity = e.purity ∧ back.level = e.level ∧
      e.intensity = .ok x ∧ other.intensity = .ok x ∧ back.intensity = .ok x := by
  have hc : ∀ k, 0 ≤ (⟨1 / 2, 1, 0⟩ : Triple ℝ).get k := by
    intro k
    cases k <;> norm_num [Triple.get]
  let e : Eye ℝ := { Eye.blank .normalized with hue := 1 / 6, purity := 1, normalized := 1 / 2 }
  have he : e.Faithful := Eye.faithful_blank .normalized
  have hother : (Eye.blank .perceived : Eye ℝ).space ≠ e.space := by decide
  obtain ⟨hlinear, hback⟩ := copies_between_spaces
  obtain ⟨other, back, x, h⟩ :=
    hback e (Eye.blank .perceived) (Eye.blank .normalized) he zero_le_one le_rfl hother rfl
  exact ⟨hlinear _ (Eye.blank .normalized) (Eye.blank .perceived) (Eye.blank .normalized) hc
    away_half_red.1 away_half_red.2 rfl rfl (Eye.faithful_blank .perceived) rfl,
    e, other, back, x, rfl, rfl, rfl, rfl, he, h⟩

end Dichromat

end
