import Dichromat.Color.Convert
import Dichromat.Proofs.Exact.Limit

/-!
# The intensity limit of a perceptual colour

A perceptual colour remembers an intensity limit and the hue and purity that it belongs to. As long
as that memory is right (`Eye.Faithful`), the limit that the colour tells is the one of its present
hue and purity (`limit_eq`), and it is where the gamut of these ends
(`channels_le_one_iff_le_limit`).
-/

noncomputable section

namespace Dichromat

open Exact

namespace Eye

/-! ### What a colour remembers -/

/-- A remembered limit is that of the hue and purity remembered with it, if there are any. -/
def Faithful (e : Eye ℝ) : Prop :=
  (e.knownHue = -1 ∧ e.knownPurity = -1) ∨
    intensityLimit e.knownHue e.knownPurity = .ok e.knownLimit

theorem faithful_blank (space : EyeSpace) : (blank space : Eye ℝ).Faithful := by
  have h : (Arith.ratio (-1) 1 : ℝ) = -1 := by norm_num
  exact Or.inl ⟨h, h⟩

/-- The colour that remembers the limit of its hue and purity. -/
def known (e : Eye ℝ) : Eye ℝ :=
  { e with knownLimit := limitOf e.hue e.purity, knownHue := e.hue, knownPurity := e.purity }

/-! ### What a colour tells -/

theorem eq_of_remembered {e : Eye ℝ} {limit : ℝ} (h : e.remembered? = some limit) :
    e.knownHue = e.hue ∧ e.knownPurity = e.purity ∧ e.knownLimit = limit := by
  simpa [remembered?, Arith.same, and_assoc] using h

/-- The limit that a colour tells is the one that it remembers from then on. -/
theorem withKnownLimit_eq {e : Eye ℝ} {limit : ℝ} (h : e.limit = .ok limit) : e.withKnownLimit =
    { e with knownLimit := limit, knownHue := e.hue, knownPurity := e.purity } := by
  simp only [Eye.limit, withKnownLimit, readLimit, Update.runOn_bind, Update.runOn_get] at h ⊢
  cases hr : e.remembered? with
  | some known =>
    obtain ⟨hhue, hpurity, rfl⟩ := eq_of_remembered hr
    simp only [hr] at h ⊢
    obtain rfl := Except.ok.inj h
    rcases e with ⟨_, hue, purity, _, _, knownHue, knownPurity, _⟩
    obtain rfl : knownHue = hue := hhue
    obtain rfl : knownPurity = purity := hpurity
    rfl
  | none =>
    simp only [hr, Update.runOn_bind, Update.runOn_liftM] at h ⊢
    rcases hlimit : intensityLimit e.hue e.purity with fault | known
    · rw [hlimit] at h
      exact absurd h nofun
    · rw [hlimit] at h
      obtain rfl := Except.ok.inj h
      rfl

theorem readLimit_of_limit {e : Eye ℝ} {limit : ℝ} (h : e.limit = .ok limit) : readLimit.runOn e =
    (.ok limit, { e with knownLimit := limit, knownHue := e.hue, knownPurity := e.purity }) :=
  Prod.ext h (withKnownLimit_eq h)

/-- The limit has nothing to do with the space and the intensities of a colour. -/
theorem limit_of_intensity (e : Eye ℝ) (space : EyeSpace) (i j : ℝ) :
    limit { e with space := space, perceived := i, normalized := j } = e.limit := by
  have hremembered : remembered? { e with space := space, perceived := i, normalized := j } =
      e.remembered? := rfl
  simp only [limit, readLimit, Update.runOn_bind, Update.runOn_get, hremembered]
  cases e.remembered? with
  | some limit => rfl
  | none => rcases intensityLimit e.hue e.purity with fault | limit <;> rfl

section Limit

variable {e : Eye ℝ} (he : e.Faithful) (hp₀ : 0 ≤ e.purity) (hp₁ : e.purity ≤ 1)

include hp₀ hp₁

omit he in
theorem faithful_known : e.known.Faithful := Or.inr (intensityLimit_eq hp₀ hp₁)

omit he in
/-- Whatever a colour remembers, it tells some limit. -/
theorem exists_limit : ∃ limit, e.limit = .ok limit := by
  simp only [limit, readLimit, Update.runOn_bind, Update.runOn_get]
  cases e.remembered? with
  | some limit => exact ⟨limit, rfl⟩
  | none =>
    rw [intensityLimit_eq hp₀ hp₁]
    exact ⟨_, rfl⟩

include he

/-- The memory makes no difference to the limit. -/
theorem limit_eq : e.limit = .ok (limitOf e.hue e.purity) := by
  simp only [limit, readLimit, Update.runOn_bind, Update.runOn_get]
  cases hr : e.remembered? with
  | some limit =>
    obtain ⟨hhue, hpurity, rfl⟩ := eq_of_remembered hr
    rcases he with ⟨-, hp⟩ | hk
    · linarith
    · rw [hhue, hpurity, intensityLimit_eq hp₀ hp₁] at hk
      exact congrArg Except.ok (Except.ok.inj hk).symm
  | none =>
    rw [intensityLimit_eq hp₀ hp₁]
    rfl

theorem limit_ne_zero : e.limit ≠ .ok 0 := fun h =>
  (limitOf_pos hp₀ hp₁).ne' (Except.ok.inj ((limit_eq he hp₀ hp₁).symm.trans h))

end Limit

/-! ### The end of the gamut -/

/-- The linear colour of a perceived one has all its channels up to 1 exactly as far as the limit of
its hue and purity; there the highest channel is 1. The limit lies between the lowest of all and the
intensity of white. -/
theorem channels_le_one_iff_le_limit {e : Eye ℝ} (hspace : e.space = .perceived)
    (he : e.Faithful) (hp₀ : 0 ≤ e.purity) (hp₁ : e.purity ≤ 1) (hi : 0 ≤ e.perceived) :
    ∃ limit c, e.limit = .ok limit ∧ intensityLimit e.hue e.purity = .ok limit ∧
      (Color.eye e).convert (.rgb .linear) =
        { source := .eye e, target := .rgb ⟨.linear, c⟩, fault := none } ∧
      ((∀ k, c.get k ≤ 1) ↔ e.perceived ≤ limit) ∧
      (e.perceived = limit → ∃ k, c.highest = .ok k ∧ c.get k = 1) ∧
      perception.lowestLimit ≤ limit ∧ limit ≤ 1 := by
  have hlinear : e.toLinear = .ok (linear e.hue e.purity (.absolute e.perceived)) := by
    rw [toLinear, level, hspace]
    exact linearOfHue_eq hp₀ hp₁ _
  refine ⟨limitOf e.hue e.purity, linear e.hue e.purity (.absolute e.perceived),
    limit_eq he hp₀ hp₁, intensityLimit_eq hp₀ hp₁, ?_, ?_, ?_, lowestLimit_le_limitOf hp₀ hp₁,
    limitOf_le_one hp₀ hp₁⟩
  · have h : (Color.copyEyeToRgb e).runOn (Rgb.blank .linear) =
        (.ok (), ⟨.linear, linear e.hue e.purity (.absolute e.perceived)⟩) := by
      rw [Color.copyEyeToRgb, hlinear]
      rfl
    simp only [Color.convert, Color.blank, Color.copyTo, Color.changeRgb, h, Color.faultOf]
  · rw [← highest_le_iff]
    exact highest_linear_le_one_iff hp₀ hp₁ hi
  · intro hlimit
    obtain ⟨k, hk, hc⟩ := highest_eq (linear e.hue e.purity (.absolute e.perceived))
    rw [hlimit] at hc hk ⊢
    exact ⟨k, hk, hc.trans (highest_linear_limitOf hp₀ hp₁)⟩

/-- A green with half the purity that there can be. -/
theorem channels_le_one_iff_le_limit_pale_green :
    ∃ e : Eye ℝ, e.space = .perceived ∧ e.hue = 1 / 3 ∧ e.purity = 1 / 2 ∧ e.perceived = 1 ∧
      e.Faithful ∧ ∃ limit c, e.limit = .ok limit ∧ intensityLimit (1 / 3) (1 / 2) = .ok limit ∧
        (Color.eye e).convert (.rgb .linear) =
          { source := .eye e, target := .rgb ⟨.linear, c⟩, fault := none } ∧
        ((∀ k, c.get k ≤ 1) ↔ 1 ≤ limit) ∧
        (1 = limit → ∃ k, c.highest = .ok k ∧ c.get k = 1) ∧
        perception.lowestLimit ≤ limit ∧ limit ≤ 1 := by
  let e : Eye ℝ := { blank .perceived with hue := 1 / 3, purity := 1 / 2, perceived := 1 }
  have he : e.Faithful := faithful_blank .perceived
  have hp₀ : 0 ≤ e.purity := by norm_num [e]
  have hp₁ : e.purity ≤ 1 := by norm_num [e]
  exact ⟨e, rfl, rfl, rfl, rfl, he,
    channels_le_one_iff_le_limit rfl he hp₀ hp₁ (zero_le_one' ℝ)⟩

end Eye

end Dichromat

end
