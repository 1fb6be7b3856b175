import Dichromat.Proofs.Color.RoundTrip
import Dichromat.Proofs.Exact.Alike

/-!
# What a dichromat sees

Red and green light fall on one receptor of a red- or green-blind eye, so the light that it
perceives has these two channels equal, whatever the light was (`exists_seen_yellow_blue`). Such
light is yellow where blue is the lowest channel, with the hue in the middle between red and green,
and else it is blue alone (`hue_yellow`, `hue_blue`): a projector leaves yellows, blues and greys
in its buffers, and no other colours (`Projector.project_yellow_or_blue`).
-/

noncomputable section

namespace Dichromat

namespace Exact

/-! ### Light with equal red and green -/

/-- Both formulas give red and green the same value, and softening keeps them equal. -/
theorem exists_light_yellow_blue {d : Deficiency} (hd : d = .red ∨ d = .green) (c : Triple ℝ) :
    ∃ y b, d.light c = .ok ⟨y, y, b⟩ := by
  have hsoften (x : ℝ) : Deficiency.soften x = .ok (0.99 * x + 0.005) := rfl
  rcases hd with rfl | rfl
  · simp only [Deficiency.light, Deficiency.lightOf, Deficiency.redBlindYellow,
      Deficiency.redBlindBlue, Triple.term, ok_bind, calc_scientific, calc_mul, calc_add, calc_sub]
    exact ⟨_, _, rfl⟩
  · simp only [Deficiency.light, Deficiency.lightOf, Deficiency.greenBlindYellow,
      Deficiency.greenBlindBlue, Triple.ofTerms, Triple.term, Triple.mapM, hsoften, ok_bind,
      calc_scientific, calc_neg, calc_mul, calc_add]
    exact ⟨_, _, rfl⟩

/-- Cutting the light off at the range of RGB keeps red and green equal. -/
theorem exists_seen_yellow_blue {d : Deficiency} (hd : d = .red ∨ d = .green) (c : Triple ℝ) :
    ∃ y ∈ Set.Icc (0 : ℝ) 1, ∃ b ∈ Set.Icc (0 : ℝ) 1, d.seen c = .ok ⟨y, y, b⟩ := by
  obtain ⟨y, b, hlight⟩ := exists_light_yellow_blue hd c
  refine ⟨min (max y 0) 1, clamp_mem _, min (max b 0) 1, clamp_mem _, ?_⟩
  simp only [Deficiency.seen, hlight, ok_bind, Triple.mapM, confined_eq]
  rfl

/-! ### Its tint -/

section Tint

variable {y b : ℝ}

theorem lowest_yellow (h : b ≤ y) : lowest ⟨y, y, b⟩ = .blue := by
  rw [lowest, if_pos le_rfl, if_neg (not_lt.2 h)]

theorem lowest_blue (h : y < b) : lowest ⟨y, y, b⟩ = .red := by
  rw [lowest, if_pos le_rfl, if_pos h]

/-- Red and green have the same share of yellow light. -/
theorem hue_yellow (h : b < y) : hue (tint ⟨y, y, b⟩) = 1 / 6 := by
  have hshare : share (tint ⟨y, y, b⟩) = 1 / 2 := by
    have hlight : y - b ≠ 0 := (sub_pos.2 h).ne'
    rw [share, tint, lowest_yellow h.le]
    show (y - b) / ((y - b) + (y - b)) = 1 / 2
    rw [← two_mul, div_mul_cancel_right₀ hlight, one_div]
  have hfirst : (tint ⟨y, y, b⟩).first = .red := by
    rw [tint, lowest_yellow h.le]
    rfl
  rw [hue, hshare, bend, bow_half (mixingInverse_pos _), hfirst]
  norm_num [Channel.index]

/-- Green, the first anchor, has no light of its own beside blue. -/
theorem hue_blue (h : y < b) : hue (tint ⟨y, y, b⟩) = 2 / 3 := by
  have hshare : share (tint ⟨y, y, b⟩) = 1 := by
    have hlight : b - y ≠ 0 := (sub_pos.2 h).ne'
    rw [share, tint, lowest_blue h]
    show (b - y) / ((y - y) + (b - y)) = 1
    rw [sub_self, zero_add, div_self hlight]
  have hfirst : (tint ⟨y, y, b⟩).first = .green := by
    rw [tint, lowest_blue h]
    rfl
  rw [hue, hshare, bend, bow_one, hfirst]
  norm_num [Channel.index]

/-- Light with equal red and green is yellow, blue or, up to noise, grey. -/
theorem hueOf_yellow_blue (y b : ℝ) :
    (hueOf ⟨y, y, b⟩ = 1 / 6 ∧ b < y) ∨ (hueOf ⟨y, y, b⟩ = 2 / 3 ∧ y < b) ∨
      (hueOf ⟨y, y, b⟩ = 1 / 2 ∧ purityOf ⟨y, y, b⟩ = 0) := by
  by_cases hgrey : (tint ⟨y, y, b⟩).light < model.smallest
  · exact Or.inr (Or.inr ⟨if_pos hgrey, if_pos hgrey⟩)
  · rw [hueOf, if_neg hgrey]
    rcases lt_trichotomy y b with h | rfl | h
    · exact Or.inr (Or.inl ⟨hue_blue h, h⟩)
    · -- equal channels give no light at all
      refine absurd ?_ hgrey
      rw [tint, lowest_yellow le_rfl]
      show (y - y) + (y - y) < model.smallest
      rw [sub_self, add_zero]
      exact smallest_pos
    · exact Or.inl ⟨hue_yellow h, h⟩

end Tint

end Exact

open Exact

namespace Projector

/-! ### Projection -/

/-- A projector leaves the light that it sees in one buffer, and in the other the colour of it. -/
theorem Serves.project_eq {p : Projector ℝ} {d : Deficiency} (hp : p.Serves d) {c light : Triple ℝ}
    (hseen : d.seen c = .ok light) (hnonneg : ∀ k, 0 ≤ light.get k) :
    p.project c = .ok { p with light, eye := read p.eye light } := by
  rw [project, hp.deficiency, hseen, ok_bind,
    Update.apply_eq_ok.2 (readLinear_eq hnonneg p.eye), ok_bind]
  rfl

/-- Whatever the light and the buffers, a dichromat sees a yellow, a blue or a grey. The light in
the buffer is in the range of RGB, with equal red and green; the hue is yellow where these are above
blue, and blue where they are below it. -/
theorem project_yellow_or_blue {p : Projector ℝ} {d : Deficiency} (hp : p.Serves d)
    (hd : d = .red ∨ d = .green) (c : Triple ℝ) :
    ∃ q, p.project c = .ok q ∧ q.Serves d ∧ q.light.red = q.light.green ∧
      (∀ k, q.light.get k ∈ Set.Icc (0 : ℝ) 1) ∧ q.eye.space = .perceived ∧
      ((q.eye.hue = 1 / 6 ∧ q.light.blue < q.light.red) ∨
        (q.eye.hue = 2 / 3 ∧ q.light.red < q.light.blue) ∨
        (q.eye.hue = 1 / 2 ∧ q.eye.purity = 0)) ∧
      q.eye.purity ∈ Set.Icc (0 : ℝ) 1 ∧ q.eye.perceived ∈ Set.Icc (0 : ℝ) 1 := by
  obtain ⟨y, hy, b, hb, hseen⟩ := exists_seen_yellow_blue hd c
  have hrange : ∀ k, (⟨y, y, b⟩ : Triple ℝ).get k ∈ Set.Icc (0 : ℝ) 1 := by
    intro k
    cases k
    · exact hy
    · exact hy
    · exact hb
  have hnonneg : ∀ k, 0 ≤ (⟨y, y, b⟩ : Triple ℝ).get k := fun k => (hrange k).1
  have hproject := hp.project_eq hseen hnonneg
  have hintensity : (read p.eye ⟨y, y, b⟩).perceived =
      Exact.brightness ⟨y, y, b⟩ ^ model.gammaInverse := if_pos hp.perceived
  refine ⟨_, hproject, ⟨hp.deficiency, hp.perceived⟩, rfl, hrange, hp.perceived,
    hueOf_yellow_blue y b, ⟨purityOf_nonneg hnonneg, purityOf_le_one hnonneg⟩, ?_⟩
  show (read p.eye ⟨y, y, b⟩).perceived ∈ _
  rw [hintensity]
  exact ⟨perceived_nonneg hrange, perceived_le_one hrange⟩

/-- A green-blind eye before light far out of the range of RGB. -/
theorem project_yellow_or_blue_bright :
    ∃ q, (ofDeficiency .green : Projector ℝ).project ⟨2, -1, 3⟩ = .ok q ∧ q.Serves .green ∧
      q.light.red = q.light.green ∧ (∀ k, q.light.get k ∈ Set.Icc (0 : ℝ) 1) ∧
      q.eye.space = .perceived ∧
      ((q.eye.hue = 1 / 6 ∧ q.light.blue < q.light.red) ∨
        (q.eye.hue = 2 / 3 ∧ q.light.red < q.light.blue) ∨
        (q.eye.hue = 1 / 2 ∧ q.eye.purity = 0)) ∧
      q.eye.purity ∈ Set.Icc (0 : ℝ) 1 ∧ q.eye.perceived ∈ Set.Icc (0 : ℝ) 1 :=
  project_yellow_or_blue (serves_ofDeficiency .green) (Or.inr rfl) ⟨2, -1, 3⟩

end Projector

end Dichromat

end
