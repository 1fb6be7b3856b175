import Dichromat.Proofs.Exact.Alike
import Dichromat.Proofs.Exact.Pair

/-!
# Colours that are seen farther apart

The error of a colour is a sum over its pairs, so that it can only fall if each of them is seen
farther apart (`addPairErrors_le`). The exception is a pair that has fallen together: it costs the
penalty, and more than that once it is seen at a small enough distance
(`State.colorError_le_of_farther`).
-/

noncomputable section

namespace Dichromat

namespace Exact

variable {settings : Settings ℝ} {row : List ℝ} {k : ℤ} {l : ℕ} {a b x : Eye ℝ} {xs : List (Eye ℝ)}
  {p q original u v : ℝ}

theorem distance_nonneg (h : a.distance b = .ok p) : 0 ≤ p := by
  simp only [Eye.distance, sliceCosine_eq, ok_bind, bind_eq_ok] at h
  obtain ⟨i, -, ⟨x, y⟩, -, j, -, ⟨z, w⟩, -, h⟩ := h
  simp only [sliceDistance, calc_mul, calc_sub, calc_one, calc_scientific, scientific_zero,
    calc_max, calc_sqrt (le_max_left _ _), calc_add] at h
  rw [calc_sqrt (add_nonneg (add_nonneg (mul_self_nonneg _) (mul_self_nonneg _))
    (mul_self_nonneg _))] at h
  exact Except.ok.inj h ▸ Real.sqrt_nonneg _

/-- A colour is seen no closer to `a` than to `b`, and has not come just apart from `a` where it had
fallen together with `b`. -/
def Recedes (settings : Settings ℝ) (a b x : Eye ℝ) (original : ℝ) : Prop :=
  ∃ p q, a.distance x = .ok p ∧ b.distance x = .ok q ∧ q ≤ p ∧
    ¬ (q = 0 ∧ NearlyCollapsed settings p original)

/-- A colour that recedes from all others has no more errors. -/
theorem addPairErrors_le (h₀ : 0 ≤ settings.zeroDistanceThreshold)
    (hpenalty : 0 ≤ settings.collapsePenalty)
    (h : ∀ j x, xs[j]? = some x → ((l + j : ℕ) : ℤ) ≠ k →
      ∃ original, row[l + j]? = some original ∧ Recedes settings a b x original)
    (huv : u ≤ v) :
    ∃ e f, addPairErrors settings row k a l xs u = .ok e ∧
      addPairErrors settings row k b l xs v = .ok f ∧ e ≤ f := by
  -- the errors of the first pairs are in the two sums, which only have their order in common
  induction xs generalizing l u v with
  | nil => exact ⟨u, v, rfl, rfl, huv⟩
  | cons x xs ih =>
    have hrest (j : ℕ) (y : Eye ℝ) (hy : xs[j]? = some y) (hne : ((l + 1 + j : ℕ) : ℤ) ≠ k) :
        ∃ original, row[l + 1 + j]? = some original ∧ Recedes settings a b y original := by
      rw [show l + 1 + j = l + (j + 1) by omega] at hne ⊢
      exact h (j + 1) y hy hne
    by_cases hk : (l : ℤ) = k
    · unfold addPairErrors
      rw [if_pos hk, if_pos hk]
      exact ih hrest huv
    · obtain ⟨original, ho, p, q, hp, hq, hle, hnot⟩ := h 0 x rfl hk
      have hm := near_or_ne_zero h₀ original
      have hcost : pairCost settings p original ≤ pairCost settings q original := by
        rw [← pairCost_lt_iff h₀ hpenalty (distance_nonneg hq) hle] at hnot
        exact not_lt.1 hnot
      rw [addPairErrors_cons hk hp ho hm, addPairErrors_cons hk hq ho hm]
      exact ih hrest (add_le_add huv hcost)

end Exact

namespace State

open Exact

/-- A pair that is seen farther apart costs more exactly if it had fallen together and now nearly
does. So a colour that is seen farther from all others has no greater error if none of its pairs
comes apart like that. -/
theorem colorError_le_of_farther {ctx : Context ℝ}
    (h₀ : 0 ≤ ctx.settings.zeroDistanceThreshold) (hpenalty : 0 < ctx.settings.collapsePenalty) :
    (∀ p q original : ℝ, 0 ≤ q → q ≤ p → ∃ e f,
      pairError p original ctx.settings.zeroDistanceThreshold ctx.settings.collapsePenalty = .ok e ∧
      pairError q original ctx.settings.zeroDistanceThreshold ctx.settings.collapsePenalty = .ok f ∧
      (f < e ↔ q = 0 ∧ NearlyCollapsed ctx.settings p original)) ∧
    ∀ (s : State ℝ) (k : ℤ) (row : List ℝ) (a b : Eye ℝ), ctx.row k = .ok row →
      (∀ (l : ℕ) (x : Eye ℝ), s.projected[l]? = some x → (l : ℤ) ≠ k →
        ∃ original, row[l]? = some original ∧ Recedes ctx.settings a b x original) →
      ∃ e f, colorError ctx s.projected k a = .ok e ∧ colorError ctx s.projected k b = .ok f ∧
        e ≤ f := by
  constructor
  · intro p q original hq hqp
    have hm := near_or_ne_zero h₀ original
    exact ⟨_, _, pairError_eq hm, pairError_eq hm, pairCost_lt_iff h₀ hpenalty.le hq hqp⟩
  · intro s k row a b hrow h
    unfold colorError
    rw [hrow, ok_bind, ok_bind]
    refine addPairErrors_le h₀ hpenalty.le (fun l x hx hne => ?_) le_rfl
    rw [Nat.zero_add] at hne ⊢
    exact h l x hx hne

/-! ### Black beside black -/

/-- What the first of two blacks costs if it is seen as another grey. -/
theorem colorError_of_blacks {ctx : Context ℝ} {s : State ℝ} (hctx : Regular ctx)
    (ho : ctx.original = [Triple.replicate 0, Triple.replicate 1]) (hd : ctx.deficiency = .none)
    (hs : s.Coherent ctx) (hpalette : s.palette = [Triple.replicate 0, Triple.replicate 0])
    {x : Eye ℝ} (hx : s.projected[1]? = some x) {z : ℝ} (hz : z ∈ Set.Icc (0 : ℝ) 1) {a : Eye ℝ}
    (ha : ctx.deficiency.project (Triple.replicate z) = .ok a) :
    a.distance x = .ok (z ^ model.gammaInverse) ∧
      colorError ctx s.projected 0 a = .ok (pairCost ctx.settings (z ^ model.gammaInverse) 1) := by
  have hzero : (0 : ℝ) ∈ Set.Icc (0 : ℝ) 1 := Set.left_mem_Icc.2 zero_le_one
  have hsees := Deficiency.sees_of_project ha
  have hspace : a.space = .perceived := hsees.perceived
  have hblack : ctx.deficiency.Sees (Triple.replicate 0) x := by
    obtain ⟨color, hcolor, hsees⟩ := exists_right_of_getElem? hs.sees.flip hx
    rw [hpalette] at hcolor
    obtain rfl := Option.some.inj hcolor
    exact hsees
  have hdistance : a.distance x = .ok (z ^ model.gammaInverse) := by
    rw [hd] at hsees hblack
    rw [distance_of_greys hz hzero hsees hblack, Real.zero_rpow gammaInverse_pos.ne', sub_zero,
      abs_of_nonneg (Real.rpow_nonneg hz.1 _)]
  have hapart : apart a x = z ^ model.gammaInverse := by
    rw [distance_eq hspace (hs.perceived x (List.mem_of_getElem? hx))] at hdistance
    exact Except.ok.inj hdistance
  have hlength : s.projected.length = 2 := by
    rw [hs.length_projected, hpalette]
    rfl
  have hsize : ctx.size = 2 := congrArg List.length ho
  have hmeasures := hctx.measures (hlength.trans hsize.symm).le
  have herror := colorError_eq hmeasures (hlength ▸ two_pos) hspace hs.perceived
  rw [errorAt_of_length_two hlength two_pos, cost, Nat.sub_zero, seenAt_of_getElem? hx, hapart,
    originalAt_of_black_white hctx.toSurveyed ho two_pos one_lt_two one_ne_zero] at herror
  exact ⟨hdistance, herror⟩

/-- A search for black and white that begins with two blacks, and the error that the first of them
would have as another grey. -/
theorem exists_blacks : ∃ (ctx : Context ℝ) (s : State ℝ) (row : List ℝ) (x : Eye ℝ),
    Context.ofLinear [Triple.replicate 0, Triple.replicate 1] .none Settings.standard = .ok ctx ∧
      (prepare ctx [Triple.replicate 0, Triple.replicate 0] 0).apply
        (State.idle ctx.deficiency .tabuSum) = .ok s ∧
      ctx.settings = Settings.standard ∧ ctx.row 0 = .ok row ∧ row[1]? = some 1 ∧
      (∀ (l : ℕ) (y : Eye ℝ), s.projected[l]? = some y → (l : ℤ) ≠ 0 → l = 1 ∧ y = x) ∧
      ∀ z ∈ Set.Icc (0 : ℝ) 1, ∃ a, ctx.deficiency.project (Triple.replicate z) = .ok a ∧
        a.distance x = .ok (z ^ model.gammaInverse) ∧
        colorError ctx s.projected 0 a =
          .ok (pairCost ctx.settings (z ^ model.gammaInverse) 1) := by
  have hzero : (0 : ℝ) ∈ Set.Icc (0 : ℝ) 1 := Set.left_mem_Icc.2 zero_le_one
  obtain ⟨ctx, s, hctx, hs, hregular, ho, hd, hset, hready, hpalette⟩ :=
    exists_prepare_greys standard_threshold_nonneg hzero hzero
  have hlength : s.projected.length = 2 := by
    rw [hready.coherent.length_projected, hpalette]
    rfl
  have hsize : ctx.size = 2 := congrArg List.length ho
  obtain ⟨row, hrow, hpairs⟩ := hregular.measured 0 (hsize ▸ two_pos)
  obtain ⟨original, horiginal, -⟩ := hpairs 1 (hsize ▸ one_lt_two) one_ne_zero
  obtain rfl : original = 1 := (originalAt_of_getElem? hrow horiginal).symm.trans
    (originalAt_of_black_white hregular.toSurveyed ho two_pos one_lt_two one_ne_zero)
  have hsecond := getElem?_seenAt (hlength ▸ one_lt_two : 1 < s.projected.length)
  refine ⟨ctx, s, row, seenAt s.projected 1, hctx, hs, hset, row_of_nat hrow, horiginal, fun l y hy hne => ?_,
    fun z hz => ?_⟩
  · have hl : l < 2 := hlength ▸ (List.getElem?_eq_some_iff.1 hy).1
    obtain rfl : l = 1 := by omega
    exact ⟨rfl, (seenAt_of_getElem? hy).symm⟩
  · obtain ⟨a, ha, -⟩ := project_ok ctx.deficiency (Triple.replicate z)
    exact ⟨a, ha, colorError_of_blacks hregular ho hd hready.coherent hpalette hsecond hz ha⟩

/-- White beside black instead of black beside black. -/
theorem colorError_le_of_farther_white : ∃ (ctx : Context ℝ) (s : State ℝ) (a b : Eye ℝ) (e f : ℝ),
    Context.ofLinear [Triple.replicate 0, Triple.replicate 1] .none Settings.standard = .ok ctx ∧
      0 ≤ ctx.settings.zeroDistanceThreshold ∧ 0 < ctx.settings.collapsePenalty ∧
      (prepare ctx [Triple.replicate 0, Triple.replicate 0] 0).apply
        (State.idle ctx.deficiency .tabuSum) = .ok s ∧
      ctx.deficiency.project (Triple.replicate 1) = .ok a ∧
      ctx.deficiency.project (Triple.replicate 0) = .ok b ∧
      colorError ctx s.projected 0 a = .ok e ∧ colorError ctx s.projected 0 b = .ok f ∧ e ≤ f := by
  obtain ⟨ctx, s, row, x, hctx, hs, hset, hrow, ho, hothers, hgreys⟩ := exists_blacks
  obtain ⟨a, ha, hax, -⟩ := hgreys 1 (Set.right_mem_Icc.2 zero_le_one)
  obtain ⟨b, hb, hbx, -⟩ := hgreys 0 (Set.left_mem_Icc.2 zero_le_one)
  have h₀ : 0 ≤ ctx.settings.zeroDistanceThreshold := hset ▸ standard_threshold_nonneg
  have hpenalty : 0 < ctx.settings.collapsePenalty := hset ▸ standard_penalty_pos
  rw [Real.one_rpow] at hax
  rw [Real.zero_rpow gammaInverse_pos.ne'] at hbx
  have hrecedes : Recedes ctx.settings a b x 1 := by
    refine ⟨1, 0, hax, hbx, zero_le_one, fun h => ?_⟩
    have hnear := h.2.2.2
    linarith
  obtain ⟨e, f, he, hf, hle⟩ := (colorError_le_of_farther h₀ hpenalty).2 s 0 row a b hrow
    fun l y hy hne => by
      obtain ⟨rfl, rfl⟩ := hothers l y hy hne
      exact ⟨1, ho, hrecedes⟩
  exact ⟨ctx, s, a, b, e, f, hctx, h₀, hpenalty, hs, ha, hb, he, hf, hle⟩

/-- A grey that comes a 100000th apart from black costs more than black does. -/
theorem colorError_lt_of_farther_grey : ∃ (ctx : Context ℝ) (s : State ℝ) (a b : Eye ℝ),
    Context.ofLinear [Triple.replicate 0, Triple.replicate 1] .none Settings.standard = .ok ctx ∧
      0 ≤ ctx.settings.zeroDistanceThreshold ∧ 0 < ctx.settings.collapsePenalty ∧
      (prepare ctx [Triple.replicate 0, Triple.replicate 0] 0).apply
        (State.idle ctx.deficiency .tabuSum) = .ok s ∧
      ctx.deficiency.project (Triple.replicate (1 / 10 ^ 11)) = .ok a ∧
      ctx.deficiency.project (Triple.replicate 0) = .ok b ∧
      (∀ (l : ℕ) (x : Eye ℝ), s.projected[l]? = some x → (l : ℤ) ≠ 0 → ∃ p q,
        a.distance x = .ok p ∧ b.distance x = .ok q ∧ q ≤ p) ∧
      colorError ctx s.projected 0 a = .ok 99999 ∧ colorError ctx s.projected 0 b = .ok 65536 := by
  obtain ⟨ctx, s, row, x, hctx, hs, hset, -, -, hothers, hgreys⟩ := exists_blacks
  obtain ⟨a, ha, hax, hae⟩ := hgreys (1 / 10 ^ 11) ⟨by norm_num, by norm_num⟩
  obtain ⟨b, hb, hbx, hbe⟩ := hgreys 0 (Set.left_mem_Icc.2 zero_le_one)
  have h₀ : 0 ≤ ctx.settings.zeroDistanceThreshold := hset ▸ standard_threshold_nonneg
  have hpenalty : 0 < ctx.settings.collapsePenalty := hset ▸ standard_penalty_pos
  have hfar : ctx.settings.zeroDistanceThreshold < 1 := by
    rw [hset, standard_threshold]
    norm_num
  have hroot : (1 / 10 ^ 11 : ℝ) ^ model.gammaInverse = 1 / 10 ^ 5 := by
    have hexponent : model.gammaInverse = (5 / 11 : ℝ) := by
      show (1.0 / 2.2 : ℝ) = 5 / 11
      norm_num
    calc (1 / 10 ^ 11 : ℝ) ^ model.gammaInverse = ((1 / 10 : ℝ) ^ (11 : ℝ)) ^ (5 / 11 : ℝ) := by
          rw [hexponent]
          norm_num
      _ = (1 / 10 : ℝ) ^ (5 : ℝ) := by
          rw [← Real.rpow_mul (by norm_num)]
          norm_num
      _ = 1 / 10 ^ 5 := by norm_num
  rw [hroot] at hax hae
  rw [Real.zero_rpow gammaInverse_pos.ne'] at hbx hbe
  rw [pairCost_of_closer hfar (by norm_num) (by norm_num)] at hae
  rw [pairCost_zero hfar, hset, standard_penalty] at hbe
  refine ⟨ctx, s, a, b, hctx, h₀, hpenalty, hs, ha, hb, fun l y hy hne => ?_, ?_, hbe⟩
  · obtain ⟨-, rfl⟩ := hothers l y hy hne
    exact ⟨_, _, hax, hbx, by norm_num⟩
  · rw [hae]
    norm_num

end State

end Dichromat

end
