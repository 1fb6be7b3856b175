import Dichromat.Proofs.Exact.Distance

/-!
# The error of a pair by its distances, in exact arithmetic

From its original distance on a pair costs nothing (`pairCost_eq_zero_iff`). Below it the cost grows
without a bound as the pair is seen closer (`pairCost_of_closer`), but a pair that falls together
costs the penalty alone. So the cost falls with the distance, except from a pair that falls together
to one that nearly does (`pairCost_lt_iff`).
-/

noncomputable section

namespace Dichromat

namespace Exact

/-- A pair is seen so much closer than it is that it costs more than the penalty. -/
def NearlyCollapsed (settings : Settings ℝ) (projected original : ℝ) : Prop :=
  settings.zeroDistanceThreshold < original ∧ 0 < projected ∧
    projected * (1 + settings.collapsePenalty) < original

variable {settings : Settings ℝ} {p q original : ℝ}

theorem pairCost_of_farther (h₀ : 0 ≤ settings.zeroDistanceThreshold) (hp : 0 ≤ p)
    (h : original ≤ p) : pairCost settings p original = 0 := by
  by_cases hnear : original ≤ settings.zeroDistanceThreshold
  · exact pairCost_of_near hp hnear
  · have hpos : 0 < original := h₀.trans_lt (not_le.1 hnear)
    have hd : 0 ≤ difference settings p original := by
      rw [difference, if_neg hnear, sub_nonneg]
      exact (one_le_div hpos).2 h
    rw [pairCost, if_pos hd]

theorem pairCost_of_closer (hfar : settings.zeroDistanceThreshold < original) (hp : 0 < p)
    (h : p < original) : pairCost settings p original = original / p - 1 := by
  have hpos : 0 < original := hp.trans h
  have hd : difference settings p original = p / original - 1 := if_neg (not_le.2 hfar)
  have hratio : 0 < p / original := div_pos hp hpos
  have hratio' : p / original < 1 := (div_lt_one hpos).2 h
  rw [pairCost, hd, if_neg (by linarith), if_neg (by linarith), add_sub_cancel, one_div_div]

/-- A pair costs nothing just if it does not count or is not seen closer than it is. -/
theorem pairCost_eq_zero_iff (h₀ : 0 ≤ settings.zeroDistanceThreshold)
    (hpenalty : 0 < settings.collapsePenalty) (hp : 0 ≤ p) :
    pairCost settings p original = 0 ↔
      original ≤ settings.zeroDistanceThreshold ∨ original ≤ p := by
  constructor
  · intro h
    by_contra hcloser
    obtain ⟨hfar, hlt⟩ := not_or.1 hcloser
    rw [not_le] at hfar hlt
    rcases hp.eq_or_lt with rfl | hpos
    · rw [pairCost_zero hfar] at h
      exact hpenalty.ne' h
    · rw [pairCost_of_closer hfar hpos hlt, sub_eq_zero, div_eq_one_iff_eq hpos.ne'] at h
      exact hlt.ne' h
  · rintro (hnear | hle)
    · exact pairCost_of_near hp hnear
    · exact pairCost_of_farther h₀ hp hle

/-- Of pairs that have not fallen together, the one that is seen closer costs no less. -/
theorem pairCost_le_of_pos (h₀ : 0 ≤ settings.zeroDistanceThreshold)
    (hpenalty : 0 ≤ settings.collapsePenalty) (hq : 0 < q) (hqp : q ≤ p) :
    pairCost settings p original ≤ pairCost settings q original := by
  have hp : 0 < p := hq.trans_le hqp
  rcases le_or_gt original settings.zeroDistanceThreshold with hnear | hfar
  · exact (pairCost_of_near hp.le hnear).trans_le (pairCost_nonneg hpenalty _ _)
  rcases le_or_gt original p with hle | hlt
  · exact (pairCost_of_farther h₀ hp.le hle).trans_le (pairCost_nonneg hpenalty _ _)
  · rw [pairCost_of_closer hfar hp hlt, pairCost_of_closer hfar hq (hqp.trans_lt hlt)]
    exact sub_le_sub_right (div_le_div_of_nonneg_left (hp.trans hlt).le hq hqp) 1

/-- The penalty is not the most that a pair can cost. -/
theorem penalty_lt_pairCost_iff (h₀ : 0 ≤ settings.zeroDistanceThreshold)
    (hpenalty : 0 ≤ settings.collapsePenalty) (hp : 0 ≤ p) :
    settings.collapsePenalty < pairCost settings p original ↔
      NearlyCollapsed settings p original := by
  have hcloser (hfar : settings.zeroDistanceThreshold < original) (hpos : 0 < p)
      (hlt : p < original) : settings.collapsePenalty < pairCost settings p original ↔
        p * (1 + settings.collapsePenalty) < original := by
    rw [pairCost_of_closer hfar hpos hlt, lt_sub_iff_add_lt', lt_div_iff₀' hpos]
  constructor
  · intro h
    have hfar : settings.zeroDistanceThreshold < original := by
      by_contra hnear
      rw [pairCost_of_near hp (not_lt.1 hnear)] at h
      exact absurd hpenalty (not_le.2 h)
    have hpos : 0 < p := by
      refine hp.lt_of_ne fun hzero => ?_
      rw [← hzero, pairCost_zero hfar] at h
      exact lt_irrefl _ h
    have hlt : p < original := by
      by_contra hle
      rw [pairCost_of_farther h₀ hp (not_lt.1 hle)] at h
      exact absurd hpenalty (not_le.2 h)
    exact ⟨hfar, hpos, (hcloser hfar hpos hlt).1 h⟩
  · rintro ⟨hfar, hpos, hless⟩
    have hlt : p < original :=
      (le_mul_of_one_le_right hp (le_add_of_nonneg_right hpenalty)).trans_lt hless
    exact (hcloser hfar hpos hlt).2 hless

/-- Seen farther apart, a pair costs more just if it has fallen together and then nearly does. -/
theorem pairCost_lt_iff (h₀ : 0 ≤ settings.zeroDistanceThreshold)
    (hpenalty : 0 ≤ settings.collapsePenalty) (hq : 0 ≤ q) (hqp : q ≤ p) :
    pairCost settings q original < pairCost settings p original ↔
      q = 0 ∧ NearlyCollapsed settings p original := by
  have hp : 0 ≤ p := hq.trans hqp
  rcases hq.eq_or_lt with rfl | hpos
  · rw [← penalty_lt_pairCost_iff h₀ hpenalty hp]
    rcases le_or_gt original settings.zeroDistanceThreshold with hnear | hfar
    · rw [pairCost_of_near hp hnear, pairCost_of_near le_rfl hnear]
      exact iff_of_false (lt_irrefl 0) fun h => absurd hpenalty (not_le.2 h.2)
    · rw [pairCost_zero hfar, and_iff_right rfl]
  · exact iff_of_false (not_lt.2 (pairCost_le_of_pos h₀ hpenalty hpos hqp)) fun h => hpos.ne' h.1

end Exact

end Dichromat

end
