import Dichromat.Color.Eye
import Dichromat.Proofs.Color.Order
import Dichromat.Proofs.Exact.Perception

/-!
# From linear RGB, in exact arithmetic

The conversion of linear channels into a perceptual colour as a plain function of real numbers
(`read`): brightness, the bent share of the second anchor that makes the hue, purity. The
computation gives these values for all channels that are not negative (`readLinear_eq`).
-/

noncomputable section

namespace Dichromat

instance : LawfulComparable ℝ := ⟨fun _ _ => rfl, fun _ _ => rfl⟩

namespace Exact

/-! ### Brightness -/

/-- The light of a primary as the eye feels it. -/
def felt (c : Triple ℝ) (k : Channel) : ℝ := model.normalSensitivity.get k * c.get k

/-- The brightest of the lights that are felt. -/
def maxFelt (c : Triple ℝ) : ℝ := max (max (felt c .red) (felt c .green)) (felt c .blue)

/-- All of the brightest primary and a share of the others. -/
def brightness (c : Triple ℝ) : ℝ :=
  model.dimmestShare * (felt c .red + felt c .green + felt c .blue) +
    (1 - model.dimmestShare) * maxFelt c

theorem brightness_eq (c : Triple ℝ) : Dichromat.brightness c = .ok (brightness c) := by
  have h := (Triple.orderedBy_get ⟨felt c .red, felt c .green, felt c .blue⟩).order_cases
  simp only [felt] at h
  simp only [Dichromat.brightness, Calc.sensitivity, Triple.term, Triple.get, calc_mul, ok_bind]
    at h ⊢
  unfold brightness maxFelt felt
  simp only [Triple.get]
  rcases h with ⟨ho, h₁, h₂⟩ | ⟨ho, h₁, h₂⟩ | ⟨ho, h₁, h₂⟩ | ⟨ho, h₁, h₂⟩ | ⟨ho, h₁, h₂⟩ |
    ⟨ho, h₁, h₂⟩ <;> rw [ho] <;>
    simp only [ok_bind, Calc.dimmestShare, Calc.middleShare, calc_mul, calc_add, middleShare_eq] <;>
    congr 1
  · rw [max_eq_right h₁, max_eq_right h₂.le]
    ring
  · rw [max_eq_right (h₁.le.trans h₂), max_eq_left h₂]
    ring
  · rw [max_eq_right h₂, max_eq_left (h₁.trans h₂)]
    ring
  · rw [max_eq_left h₁.le, max_eq_right h₂.le]
    ring
  · rw [max_eq_left (h₁.le.trans h₂), max_eq_left h₂]
    ring
  · rw [max_eq_left h₂.le, max_eq_left (h₁.trans h₂.le)]
    ring

/-! ### Bent shares

The share of the second anchor in the light of a hue is bent to make the hue, and bent back. -/

/-- Bends the lower half of the unit interval by one power and the upper half by another. -/
def bow (a b d : ℝ) : ℝ := if d < 1 / 2 then (2 * d) ^ a / 2 else (2 * d - 1) ^ b / 2 + 1 / 2

/-- The share of the second anchor as the eye feels mixtures. -/
def bend (first second : Channel) : ℝ → ℝ :=
  bow (model.mixing.get first) (model.mixingInverse.get second)

/-- The share of the second anchor that a bent one comes from. -/
def unbend (first second : Channel) : ℝ → ℝ :=
  bow (model.mixingInverse.get first) (model.mixing.get second)

section Bow

variable {a b d : ℝ}

theorem bow_lt_half (ha : 0 < a) (hd : 0 ≤ d) (h : d < 1 / 2) : bow a b d < 1 / 2 := by
  rw [bow, if_pos h]
  have : (2 * d) ^ a < 1 := Real.rpow_lt_one (by linarith) (by linarith) ha
  linarith

theorem half_le_bow (h : 1 / 2 ≤ d) : 1 / 2 ≤ bow a b d := by
  rw [bow, if_neg (not_lt.2 h)]
  have : 0 ≤ (2 * d - 1) ^ b := Real.rpow_nonneg (by linarith) _
  linarith

theorem bow_half (hb : 0 < b) : bow a b (1 / 2) = 1 / 2 := by
  rw [bow, if_neg (lt_irrefl _), mul_div_cancel₀ _ two_ne_zero, sub_self,
    Real.zero_rpow hb.ne', zero_div, zero_add]

theorem bow_one : bow a b 1 = 1 := by
  have h : (2 : ℝ) * 1 - 1 = 1 := by norm_num
  rw [bow, if_neg (by norm_num), h, Real.one_rpow]
  norm_num

theorem bow_nonneg (hd : 0 ≤ d) : 0 ≤ bow a b d := by
  by_cases h : d < 1 / 2
  · rw [bow, if_pos h]
    have : 0 ≤ (2 * d) ^ a := Real.rpow_nonneg (by linarith) _
    linarith
  · exact le_trans (by norm_num) (half_le_bow (not_lt.1 h))

theorem bow_pos (hd : 0 < d) : 0 < bow a b d := by
  by_cases h : d < 1 / 2
  · rw [bow, if_pos h]
    have : 0 < (2 * d) ^ a := Real.rpow_pos_of_pos (by linarith) _
    linarith
  · exact lt_of_lt_of_le (by norm_num) (half_le_bow (not_lt.1 h))

theorem bow_le_one (ha : 0 < a) (hb : 0 < b) (hd : 0 ≤ d) (h : d ≤ 1) : bow a b d ≤ 1 := by
  by_cases hlt : d < 1 / 2
  · exact (bow_lt_half ha hd hlt).le.trans (by norm_num)
  · rw [bow, if_neg hlt]
    rw [not_lt] at hlt
    have : (2 * d - 1) ^ b ≤ 1 := Real.rpow_le_one (by linarith) (by linarith) hb.le
    linarith

/-- Bending by the inverse powers undoes the bending. -/
theorem bow_bow (ha : 0 < a) (hb : b ≠ 0) (hd : 0 ≤ d) : bow a⁻¹ b⁻¹ (bow a b d) = d := by
  by_cases h : d < 1 / 2
  · rw [bow, if_pos (bow_lt_half ha hd h), bow, if_pos h, mul_div_cancel₀ _ two_ne_zero,
      Real.rpow_rpow_inv (by linarith) ha.ne', mul_div_cancel_left₀ _ two_ne_zero]
  · rw [bow, if_neg (not_lt.2 (half_le_bow (not_lt.1 h))), bow, if_neg h]
    rw [not_lt] at h
    have e : 2 * ((2 * d - 1) ^ b / 2 + 1 / 2) - 1 = (2 * d - 1) ^ b := by ring
    rw [e, Real.rpow_rpow_inv (by linarith) hb]
    ring

end Bow

section Bend

variable {first second : Channel} {d : ℝ}

theorem unbend_bend (hd : 0 ≤ d) : unbend first second (bend first second d) = d := by
  unfold unbend bend
  rw [mixingInverse_eq, mixingInverse_eq]
  have h := bow_bow (mixing_pos first) (inv_pos.2 (mixing_pos second)).ne' hd
  rwa [inv_inv] at h

theorem bend_unbend (hd : 0 ≤ d) : bend first second (unbend first second d) = d := by
  unfold unbend bend
  rw [mixingInverse_eq, mixingInverse_eq]
  have h := bow_bow (inv_pos.2 (mixing_pos first)) (mixing_pos second).ne' hd
  rwa [inv_inv] at h

theorem bend_nonneg (hd : 0 ≤ d) : 0 ≤ bend first second d := bow_nonneg hd

theorem bend_pos (hd : 0 < d) : 0 < bend first second d := bow_pos hd

theorem bend_le_one (hd : 0 ≤ d) (h : d ≤ 1) : bend first second d ≤ 1 :=
  bow_le_one (mixing_pos _) (mixingInverse_pos _) hd h

theorem unbend_nonneg (hd : 0 ≤ d) : 0 ≤ unbend first second d := bow_nonneg hd

theorem unbend_le_one (hd : 0 ≤ d) (h : d ≤ 1) : unbend first second d ≤ 1 :=
  bow_le_one (mixingInverse_pos _) (mixing_pos _) hd h

theorem half_le_unbend (h : 1 / 2 ≤ d) : 1 / 2 ≤ unbend first second d := half_le_bow h

theorem unbend_le_half (hd : 0 ≤ d) (h : d ≤ 1 / 2) : unbend first second d ≤ 1 / 2 := by
  rcases h.lt_or_eq with h | rfl
  · exact (bow_lt_half (mixingInverse_pos _) hd h).le
  · exact (bow_half (mixing_pos _)).le

end Bend

/-! ### From linear RGB -/

/-- The lowest channel. -/
def lowest (c : Triple ℝ) : Channel :=
  if c.red ≤ c.green then (if c.red < c.blue then .red else .blue)
  else if c.green < c.blue then .green else .blue

theorem lowest_eq (c : Triple ℝ) : c.lowest = .ok (lowest c) := by
  unfold lowest
  have hcases := c.orderedBy_get.lowest_cases
  simp only [Triple.get] at hcases
  rcases hcases with ⟨h, h₁, h₂⟩ | ⟨h, h₁, h₂⟩ | ⟨h, h₁, h₂⟩ <;> rw [h] <;>
    congr 1 <;> split_ifs <;> first | rfl | (exfalso; linarith)

theorem get_lowest_le (c : Triple ℝ) (k : Channel) : c.get (lowest c) ≤ c.get k := by
  unfold lowest
  split_ifs with h₁ h₂ h₂ <;> cases k <;> simp only [Triple.get] <;> linarith

/-- The tint of linear channels. -/
def tint (c : Triple ℝ) : Tint ℝ where
  first := (lowest c).anchors.1
  second := (lowest c).anchors.2
  white := c.get (lowest c)
  firstLight := c.get (lowest c).anchors.1 - c.get (lowest c)
  secondLight := c.get (lowest c).anchors.2 - c.get (lowest c)
  light := (c.get (lowest c).anchors.1 - c.get (lowest c)) +
    (c.get (lowest c).anchors.2 - c.get (lowest c))

theorem tint_eq (c : Triple ℝ) : Tint.ofLinear c = .ok (tint c) := by
  simp only [Tint.ofLinear, lowest_eq, Triple.term, calc_sub, ok_bind, add_eq]
  rfl

theorem isGrey_eq (t : Tint ℝ) : t.isGrey = .ok (decide (t.light < model.smallest)) := rfl

theorem firstLight_nonneg (c : Triple ℝ) : 0 ≤ (tint c).firstLight :=
  sub_nonneg.2 (get_lowest_le c _)

theorem secondLight_nonneg (c : Triple ℝ) : 0 ≤ (tint c).secondLight :=
  sub_nonneg.2 (get_lowest_le c _)

/-- The share of the second anchor in the light. -/
def share (t : Tint ℝ) : ℝ := t.secondLight / t.light

theorem share_nonneg (c : Triple ℝ) : 0 ≤ share (tint c) :=
  div_nonneg (secondLight_nonneg c) (add_nonneg (firstLight_nonneg c) (secondLight_nonneg c))

theorem share_le_one (c : Triple ℝ) : share (tint c) ≤ 1 :=
  div_le_one_of_le₀ (le_add_of_nonneg_left (firstLight_nonneg c))
    (add_nonneg (firstLight_nonneg c) (secondLight_nonneg c))

/-- The hue of a tint. -/
def hue (t : Tint ℝ) : ℝ := (t.first.index + bend t.first t.second (share t)) / 3

/-- The light of both anchors by what they tint. -/
def tinted (t : Tint ℝ) : ℝ :=
  t.firstLight * model.tinting.get t.first + t.secondLight * model.tinting.get t.second

/-- The purity of a tint. -/
def purity (t : Tint ℝ) : ℝ := tinted t / (t.white + tinted t)

theorem tinted_nonneg (c : Triple ℝ) : 0 ≤ tinted (tint c) :=
  add_nonneg (mul_nonneg (firstLight_nonneg c) (tinting_pos _).le)
    (mul_nonneg (secondLight_nonneg c) (tinting_pos _).le)

theorem tinted_pos {c : Triple ℝ} (h : 0 < (tint c).light) : 0 < tinted (tint c) := by
  have h₁ := firstLight_nonneg c
  have h₂ := secondLight_nonneg c
  have e : (tint c).light = (tint c).firstLight + (tint c).secondLight := rfl
  rcases h₁.lt_or_eq with h₁ | h₁
  · exact add_pos_of_pos_of_nonneg (mul_pos h₁ (tinting_pos _)) (mul_nonneg h₂ (tinting_pos _).le)
  · have h₂ : 0 < (tint c).secondLight := by linarith
    exact add_pos_of_nonneg_of_pos (mul_nonneg h₁.le (tinting_pos _).le)
      (mul_pos h₂ (tinting_pos _))

theorem hue_eq (c : Triple ℝ) (h : (tint c).light ≠ 0) : (tint c).hue = .ok (hue (tint c)) := by
  have h₀ := share_nonneg c
  simp only [Tint.hue, div_eq _ h, ok_bind, calc_lt, calc_ratio, calc_ofNat, calc_mul, calc_sub,
    calc_whole, calc_one, Calc.mixing, Calc.mixingInverse, decide_eq_true_eq, Int.cast_one,
    Nat.cast_ofNat]
  unfold hue bend bow share at *
  by_cases hd : (tint c).secondLight / (tint c).light < 1 / 2
  · rw [if_pos hd, if_pos hd, calc_pow (by linarith) (mixing_pos _).le, calc_div _ two_ne_zero,
      calc_add, calc_div _ three_ne_zero, Int.cast_natCast]
  · rw [if_neg hd, if_neg hd, calc_pow (by linarith) (mixingInverse_pos _).le,
      calc_div _ two_ne_zero, calc_add, calc_add, calc_div _ three_ne_zero, Int.cast_natCast]

theorem purity_eq (t : Tint ℝ) (h : t.white + tinted t ≠ 0) : t.purity = .ok (purity t) := by
  simp only [Tint.purity, calc_mul, Calc.tinting, calc_add]
  exact calc_div _ h

/-- The hue that a colour has or, as grey, is given. -/
def hueOf (c : Triple ℝ) : ℝ := if (tint c).light < model.smallest then 1 / 2 else hue (tint c)

theorem bend_share_mem (c : Triple ℝ) :
    bend (tint c).first (tint c).second (share (tint c)) ∈ Set.Icc (0 : ℝ) 1 :=
  ⟨bend_nonneg (share_nonneg c), bend_le_one (share_nonneg c) (share_le_one c)⟩

/-- The hue of a linear colour lies on the wheel, whatever its channels. -/
theorem hueOf_mem (c : Triple ℝ) : hueOf c ∈ Set.Icc (0 : ℝ) 1 := by
  unfold hueOf
  split_ifs
  · norm_num
  · obtain ⟨h₀, h₁⟩ := bend_share_mem c
    have hi : ((tint c).first.index : ℝ) ≤ 2 := by
      have h : (tint c).first.index ≤ 2 := by cases (tint c).first <;> decide
      exact_mod_cast h
    have hi' : (0 : ℝ) ≤ (tint c).first.index := Nat.cast_nonneg _
    rw [Set.mem_Icc, hue]
    constructor <;> linarith

/-- The purity of linear channels; there is none in noise. -/
def purityOf (c : Triple ℝ) : ℝ := if (tint c).light < model.smallest then 0 else purity (tint c)

theorem purity_of_white {c : Triple ℝ} (hwhite : (tint c).white = 0) (h : 0 < (tint c).light) :
    purity (tint c) = 1 := by
  rw [purity, hwhite, zero_add, div_self (tinted_pos h).ne']

/-- The highest channel. -/
def highest (c : Triple ℝ) : ℝ := max (max c.red c.green) c.blue

theorem highest_eq (c : Triple ℝ) : ∃ k, c.highest = .ok k ∧ c.get k = highest c := by
  unfold highest
  have hcases := c.orderedBy_get.highest_cases
  simp only [Triple.get] at hcases
  rcases hcases with ⟨h, h₁, h₂⟩ | ⟨h, h₁, h₂⟩ | ⟨h, h₁, h₂⟩
  · exact ⟨.red, h, by rw [max_eq_left h₁.le, max_eq_left h₂]; rfl⟩
  · exact ⟨.green, h, by rw [max_eq_right h₁, max_eq_left h₂]; rfl⟩
  · exact ⟨.blue, h, by rw [max_eq_right (max_lt h₁ h₂).le]; rfl⟩

theorem le_highest (c : Triple ℝ) (k : Channel) : c.get k ≤ highest c := by
  unfold highest
  cases k <;> simp [Triple.get]

theorem highest_eq_get {c : Triple ℝ} {k : Channel} (h : ∀ l, c.get l ≤ c.get k) :
    highest c = c.get k :=
  le_antisymm (max_le (max_le (h .red) (h .green)) (h .blue)) (le_highest c k)

theorem highest_le_iff {c : Triple ℝ} {x : ℝ} : highest c ≤ x ↔ ∀ k, c.get k ≤ x :=
  ⟨fun h k => (le_highest c k).trans h, fun h => max_le (max_le (h .red) (h .green)) (h .blue)⟩

/-! ### Scaled channels -/

section Scaled

variable {y : ℝ} (hy : 0 ≤ y) (c : Triple ℝ)

include hy

theorem highest_map_mul : highest (c.map (y * ·)) = y * highest c := by
  rw [highest, highest, mul_max_of_nonneg _ _ hy, mul_max_of_nonneg _ _ hy]
  rfl

theorem brightness_map_mul : brightness (c.map (y * ·)) = y * brightness c := by
  have hf (k : Channel) : felt (c.map (y * ·)) k = y * felt c k := by
    rw [felt, felt, Triple.get_map, mul_left_comm]
  have hm : maxFelt (c.map (y * ·)) = y * maxFelt c := by
    rw [maxFelt, maxFelt, hf, hf, hf, mul_max_of_nonneg _ _ hy, mul_max_of_nonneg _ _ hy]
  rw [brightness, brightness, hm, hf, hf, hf]
  ring

end Scaled

/-! ### Reading linear channels -/

/-- A colour after it has taken over linear channels. -/
def read (e : Eye ℝ) (c : Triple ℝ) : Eye ℝ :=
  { e with
    hue := hueOf c
    purity := purityOf c
    perceived := if e.space = .perceived then brightness c ^ model.gammaInverse else e.perceived
    normalized := if e.space = .normalized then highest c ^ model.gammaInverse else e.normalized }

section Nonnegative

variable {c : Triple ℝ} (hc : ∀ k, 0 ≤ c.get k)

include hc

theorem felt_nonneg (k : Channel) : 0 ≤ felt c k := mul_nonneg (sensitivity_pos k).le (hc k)

theorem maxFelt_nonneg : 0 ≤ maxFelt c := (felt_nonneg hc .blue).trans (le_max_right _ _)

theorem brightness_nonneg : 0 ≤ brightness c := by
  have h₁ := felt_nonneg hc
  have h₂ := dimmestShare_pos
  have h₃ := sub_pos.2 dimmestShare_lt_one
  exact add_nonneg (mul_nonneg h₂.le (add_nonneg (add_nonneg (h₁ _) (h₁ _)) (h₁ _)))
    (mul_nonneg h₃.le (maxFelt_nonneg hc))

theorem highest_nonneg : 0 ≤ highest c := (hc .blue).trans (le_max_right _ _)

theorem felt_le_brightness (k : Channel) : felt c k ≤ brightness c := by
  have hm : felt c k ≤ maxFelt c := by
    unfold maxFelt
    cases k <;> simp
  have hsum : felt c k ≤ felt c .red + felt c .green + felt c .blue := by
    have h := felt_nonneg hc
    cases k
    · linarith [h .green, h .blue]
    · linarith [h .red, h .blue]
    · linarith [h .red, h .green]
  calc felt c k
      = model.dimmestShare * felt c k + (1 - model.dimmestShare) * felt c k := by ring
    _ ≤ brightness c := add_le_add (mul_le_mul_of_nonneg_left hsum dimmestShare_pos.le)
        (mul_le_mul_of_nonneg_left hm (sub_pos.2 dimmestShare_lt_one).le)

/-- A colour is at most as bright as white light of its highest channel. -/
theorem brightness_le_highest : brightness c ≤ highest c := by
  have hf (k : Channel) : felt c k ≤ model.normalSensitivity.get k * highest c :=
    mul_le_mul_of_nonneg_left (le_highest c k) (sensitivity_pos k).le
  have hg (k : Channel) : felt c k ≤ model.normalSensitivity.get .green * highest c :=
    (hf k).trans (mul_le_mul_of_nonneg_right (sensitivity_le_green k) (highest_nonneg hc))
  have hm : maxFelt c ≤ model.normalSensitivity.get .green * highest c :=
    max_le (max_le (hg _) (hg _)) (hg _)
  have hsum := add_le_add (add_le_add (hf .red) (hf .green)) (hf .blue)
  calc brightness c
      ≤ model.dimmestShare * (model.normalSensitivity.get .red * highest c +
            model.normalSensitivity.get .green * highest c +
            model.normalSensitivity.get .blue * highest c) +
          (1 - model.dimmestShare) * (model.normalSensitivity.get .green * highest c) :=
        add_le_add (mul_le_mul_of_nonneg_left hsum dimmestShare_pos.le)
          (mul_le_mul_of_nonneg_left hm (sub_pos.2 dimmestShare_lt_one).le)
    _ = (model.dimmestShare * (model.normalSensitivity.get .red +
            model.normalSensitivity.get .green + model.normalSensitivity.get .blue) +
          (1 - model.dimmestShare) * model.normalSensitivity.get .green) * highest c := by ring
    _ = highest c := by rw [brightness_white, one_mul]

/-- A colour is at least as bright as blue light of its highest channel. -/
theorem blue_le_brightness : model.normalSensitivity.get .blue * highest c ≤ brightness c := by
  obtain ⟨k, -, hk⟩ := highest_eq c
  calc model.normalSensitivity.get .blue * highest c
      ≤ model.normalSensitivity.get k * c.get k :=
        hk ▸ mul_le_mul_of_nonneg_right (sensitivity_blue_le k) (hc k)
    _ ≤ brightness c := felt_le_brightness hc k

/-- Channels that are not negative can always be taken over. -/
theorem readLinear_eq (e : Eye ℝ) : (Eye.readLinear c).runOn e = (.ok (), read e c) := by
  have white : 0 ≤ (tint c).white := hc _
  obtain ⟨k, hk, hk'⟩ := highest_eq c
  have hi : Dichromat.perceivedIntensity c = .ok (brightness c ^ model.gammaInverse) := by
    rw [perceivedIntensity, brightness_eq]
    exact calc_pow (brightness_nonneg hc) gammaInverse_pos.le
  have hj : Dichromat.normalizedIntensity c = .ok (highest c ^ model.gammaInverse) := by
    rw [normalizedIntensity, hk, ok_bind, Triple.term, hk']
    exact calc_pow (highest_nonneg hc) gammaInverse_pos.le
  unfold Eye.readLinear read hueOf purityOf
  simp only [Update.runOn_bind, Update.runOn_liftM, tint_eq, isGrey_eq, decide_eq_true_eq]
  by_cases hg : (tint c).light < model.smallest
  · rcases e with ⟨_ | _, _, _, _, _, _, _, _⟩ <;>
      simp [hg, hi, hj, Update.runOn_bind]
  · have hl : 0 < (tint c).light := smallest_pos.trans_le (not_lt.1 hg)
    have hp := purity_eq (tint c) (add_pos_of_nonneg_of_pos white (tinted_pos hl)).ne'
    rcases e with ⟨_ | _, _, _, _, _, _, _, _⟩ <;>
      simp [hg, hi, hj, hue_eq c hl.ne', hp, Update.runOn_bind]

theorem ofLinear_eq (space : EyeSpace) :
    Eye.ofLinear space c = .ok (read (Eye.blank space) c) :=
  Update.apply_eq_ok.2 (readLinear_eq hc _)

end Nonnegative

end Exact

end Dichromat

end
