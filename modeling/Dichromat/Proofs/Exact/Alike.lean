import Dichromat.Proofs.Exact.Phase
import Dichromat.Proofs.Search.Serving

/-!
# Colours that are seen alike

Two colours that are seen alike cost the penalty where they were apart (`paletteError_of_alike`).
Without a deficiency colours of the gamut are seen as they are, so that the original palette has no
error (`paletteError_of_none`); nor has any palette where the original distances count as none
(`paletteError_of_near`). Greys are as far apart as their brightness is (`apart_grey`).
-/

noncomputable section

namespace Dichromat

namespace Exact

variable {ctx : Context ℝ} {palette : List (Triple ℝ)} {k l : ℕ} {a b : Triple ℝ}

/-! ### Errors of palettes -/

/-- The error of a palette that fits is that of its projections. -/
theorem exists_paletteError (hctx : Regular ctx) (hpalette : Fits ctx palette) :
    ∃ eyes, List.Forall₂ ctx.deficiency.Sees palette eyes ∧
      paletteError ctx palette .sum = .ok (totalOf ctx eyes) := by
  obtain ⟨eyes, q, es, hall, -, hsees, hes⟩ :=
    exists_errors (Projector.serves_ofDeficiency ctx.deficiency)
      (hctx.measures hpalette.length.le)
  refine ⟨eyes, hsees, ?_⟩
  rw [paletteError, hall, ok_bind]
  show (colorErrors ctx eyes >>= fun errors => Mode.sum.aggregate errors) = _
  rw [hes, ok_bind, aggregate_sum_eq (Deficiency.perceived_of_sees hsees) hes]

theorem paletteError_nil (ctx : Context ℝ) : paletteError ctx [] .sum = .ok 0 := by
  show (0.0 : Calc ℝ) = .ok 0
  rw [calc_scientific, scientific_zero]

theorem originalAt_eq (hctx : Surveyed ctx) (ha : ctx.original[k]? = some a)
    (hb : ctx.original[l]? = some b) : originalAt ctx k l =
      apart (read (Eye.blank .perceived) a) (read (Eye.blank .perceived) b) := by
  have hnonneg := hctx.original.nonneg
  obtain ⟨originals, hlinear, -, hat⟩ := exists_originalAt hctx.distances
  obtain ⟨u, hu, hau⟩ := exists_right_of_getElem? hlinear ha
  obtain ⟨v, hv, hbv⟩ := exists_right_of_getElem? hlinear hb
  rw [ofLinear_eq (hnonneg a (List.mem_of_getElem? ha))] at hau
  rw [ofLinear_eq (hnonneg b (List.mem_of_getElem? hb))] at hbv
  rw [hat k l u v hu hv, ← Except.ok.inj hau, ← Except.ok.inj hbv]

theorem perceived_nonneg (ha : InGamut a) :
    0 ≤ (read (Eye.blank .perceived) a : Eye ℝ).perceived :=
  Real.rpow_nonneg (brightness_nonneg fun k => (ha k).1) _

theorem perceived_le_one (ha : InGamut a) :
    (read (Eye.blank .perceived) a : Eye ℝ).perceived ≤ 1 := by
  have hbright : brightness a ≤ 1 :=
    (brightness_le_highest fun k => (ha k).1).trans (highest_le_iff.2 fun k => (ha k).2)
  exact Real.rpow_le_one (brightness_nonneg fun k => (ha k).1) hbright gammaInverse_pos.le

/-- No original colours are further apart than twice the brightness of white. -/
theorem originalAt_le_two (hctx : Surveyed ctx) (ha : ctx.original[k]? = some a)
    (hb : ctx.original[l]? = some b) : originalAt ctx k l ≤ 2 := by
  have ha' := hctx.original.gamut a (List.mem_of_getElem? ha)
  have hb' := hctx.original.gamut b (List.mem_of_getElem? hb)
  rw [originalAt_eq hctx ha hb]
  calc _ ≤ _ := apart_le (hueOf_mem a) (hueOf_mem b) (perceived_nonneg ha') (perceived_nonneg hb')
    _ ≤ 1 + 1 := add_le_add (perceived_le_one ha') (perceived_le_one hb')
    _ = 2 := one_add_one_eq_two

theorem Regular.measurable (hctx : Regular ctx) (hk : k < ctx.size) (hl : l < ctx.size)
    (hne : l ≠ k) : Measurable ctx (originalAt ctx k l) := by
  obtain ⟨row, hrow, hpairs⟩ := hctx.measured k hk
  obtain ⟨original, horiginal, hmeasurable⟩ := hpairs l hl hne
  rwa [originalAt_of_getElem? hrow horiginal]

/-! ### Colours that fall together -/

/-- Two colours that are seen alike cost the penalty if their original distance counts. -/
theorem paletteError_of_alike (hctx : Regular ctx) (hpalette : Fits ctx palette)
    (ha : palette[k]? = some a) (hb : palette[l]? = some b) (hne : l ≠ k)
    (hseen : ctx.deficiency.seen a = ctx.deficiency.seen b)
    (hfar : ctx.settings.zeroDistanceThreshold < originalAt ctx k l)
    (hpenalty : 0 ≤ ctx.settings.collapsePenalty) :
    ∃ e, paletteError ctx palette .sum = .ok e ∧ ctx.settings.collapsePenalty ≤ e := by
  obtain ⟨eyes, hsees, herror⟩ := exists_paletteError hctx hpalette
  obtain ⟨x, hx, hax⟩ := exists_right_of_getElem? hsees ha
  obtain ⟨y, hy, hby⟩ := exists_right_of_getElem? hsees hb
  have hxy : apart x y = 0 := by
    obtain ⟨seen, hproject, hagrees⟩ := hby
    have hay : ctx.deficiency.Sees a y := ⟨seen, by rwa [Deficiency.project, hseen], hagrees⟩
    exact apart_of_agrees (hax.agrees hay)
  have hcost : cost ctx eyes k (seenAt eyes k) l = ctx.settings.collapsePenalty := by
    rw [cost, seenAt_of_getElem? hx, seenAt_of_getElem? hy, hxy, pairCost_zero hfar]
  exact ⟨totalOf ctx eyes, herror, hcost ▸ cost_le_totalOf hpenalty
    (List.getElem?_eq_some_iff.1 hx).1 (List.getElem?_eq_some_iff.1 hy).1 hne⟩

/-- A colour is perceived as the light that is seen of it. -/
theorem sees_of_seen {d : Deficiency} {light : Triple ℝ} (h : d.seen a = .ok light)
    (hlight : ∀ k, 0 ≤ light.get k) : d.Sees a (read (Eye.blank .perceived) light) := by
  refine ⟨_, ?_, Eye.Agrees.refl rfl⟩
  rw [Deficiency.project, h, ok_bind, ofLinear_eq hlight]

/-! ### Without errors -/

theorem seen_none {c : Triple ℝ} (h : InGamut c) : Deficiency.none.seen c = .ok c := by
  have hconfined (k : Channel) : confined 1.0 (c.get k) = .ok (c.get k) := by
    rw [confined_eq, max_eq_left (h k).1, min_eq_left (h k).2]
  have hlight : Deficiency.none.light c = .ok c := rfl
  have hred : confined 1.0 c.red = .ok c.red := hconfined .red
  have hgreen : confined 1.0 c.green = .ok c.green := hconfined .green
  have hblue : confined 1.0 c.blue = .ok c.blue := hconfined .blue
  simp only [Deficiency.seen, hlight, Triple.mapM, hred, hgreen, hblue, ok_bind]
  rfl

/-- Without a deficiency nothing is seen closer than it is. -/
theorem paletteError_of_none (hctx : Regular ctx) (hd : ctx.deficiency = .none) :
    paletteError ctx ctx.original .sum = .ok 0 := by
  obtain ⟨eyes, hsees, herror⟩ := exists_paletteError hctx hctx.original
  have hlength : eyes.length = ctx.size := hsees.length_eq.symm
  have hread {k : ℕ} (hk : k < eyes.length) : ∃ a, ctx.original[k]? = some a ∧
      (seenAt eyes k).Agrees (read (Eye.blank .perceived) a) := by
    obtain ⟨a, ha, seen, hproject, hagrees⟩ :=
      exists_right_of_getElem? hsees.flip (getElem?_seenAt hk)
    have hmem := List.mem_of_getElem? ha
    rw [hd, Deficiency.project, seen_none (hctx.original.gamut a hmem), ok_bind,
      ofLinear_eq (hctx.original.nonneg a hmem)] at hproject
    exact ⟨a, ha, Except.ok.inj hproject ▸ hagrees⟩
  rw [herror, totalOf_eq_zero fun k hk l hl hne => ?_]
  obtain ⟨a, ha, hka⟩ := hread hk
  obtain ⟨b, hb, hlb⟩ := hread hl
  have hmeasurable := hctx.measurable (hlength ▸ hk) (hlength ▸ hl) hne
  rw [cost, apart_congr hka hlb, ← originalAt_eq hctx.toSurveyed ha hb]
  exact pairCost_self (originalAt_eq hctx.toSurveyed ha hb ▸ apart_nonneg _ _) hmeasurable

/-- Colours whose original distances count as none have no errors, whatever is seen of them. -/
theorem paletteError_of_near (hctx : Regular ctx) (hpalette : Fits ctx palette)
    (hnear : ∀ k < ctx.size, ∀ l < ctx.size, l ≠ k →
      originalAt ctx k l ≤ ctx.settings.zeroDistanceThreshold) :
    paletteError ctx palette .sum = .ok 0 := by
  obtain ⟨eyes, hsees, herror⟩ := exists_paletteError hctx hpalette
  have hlength : eyes.length = ctx.size := hsees.length_eq.symm.trans hpalette.length
  rw [herror, totalOf_eq_zero fun k hk l hl hne => ?_]
  exact pairCost_of_near (apart_nonneg _ _) (hnear k (hlength ▸ hk) l (hlength ▸ hl) hne)

/-! ### Greys -/

theorem get_replicate {β : Type} (x : β) (k : Channel) : (Triple.replicate x).get k = x := by
  cases k <;> rfl

theorem inGamut_grey {x : ℝ} (hx : x ∈ Set.Icc (0 : ℝ) 1) : InGamut (Triple.replicate x) :=
  fun k => (get_replicate x k).symm ▸ hx

theorem purityOf_grey (x : ℝ) : purityOf (Triple.replicate x) = 0 := by
  have hlight : (tint (Triple.replicate x)).light = 0 := by
    simp only [tint, get_replicate, sub_self, add_zero]
  rw [purityOf, hlight, if_pos smallest_pos]

/-- White has the brightness 1. -/
theorem brightness_grey {x : ℝ} (h : 0 ≤ x) : brightness (Triple.replicate x) = x := by
  have hred : felt (Triple.replicate x) .red = 15 / 23 * x := by
    show (15.0 / (15.0 * 0.15 + 20.0 + 5.0 * 0.15) : ℝ) * x = _
    norm_num
  have hgreen : felt (Triple.replicate x) .green = 20 / 23 * x := by
    show (20.0 / (15.0 * 0.15 + 20.0 + 5.0 * 0.15) : ℝ) * x = _
    norm_num
  have hblue : felt (Triple.replicate x) .blue = 5 / 23 * x := by
    show (5.0 / (15.0 * 0.15 + 20.0 + 5.0 * 0.15) : ℝ) * x = _
    norm_num
  have hshare : model.dimmestShare = 3 / 20 := by
    show (0.15 : ℝ) = _
    norm_num
  have hmax : maxFelt (Triple.replicate x) = 20 / 23 * x := by
    rw [maxFelt, hred, hgreen, hblue, max_eq_right (by linarith : 15 / 23 * x ≤ 20 / 23 * x),
      max_eq_left (by linarith)]
  rw [brightness, hred, hgreen, hblue, hmax, hshare]
  ring

theorem perceived_black :
    (read (Eye.blank .perceived) (Triple.replicate 0) : Eye ℝ).perceived = 0 := by
  show brightness (Triple.replicate 0) ^ model.gammaInverse = 0
  rw [brightness_grey le_rfl, Real.zero_rpow gammaInverse_pos.ne']

theorem apart_grey {x y : ℝ} (hx : 0 ≤ x) (hy : 0 ≤ y) :
    apart (read (Eye.blank .perceived) (Triple.replicate x))
      (read (Eye.blank .perceived) (Triple.replicate y)) =
      |x ^ model.gammaInverse - y ^ model.gammaInverse| := by
  have hoff (z : ℝ) : offAxis (read (Eye.blank .perceived) (Triple.replicate z)) = 0 := by
    have hpurity : (read (Eye.blank .perceived) (Triple.replicate z)).purity = 0 := purityOf_grey z
    rw [offAxis, hpurity, mul_zero, Real.sin_zero, mul_zero]
  have halong {z : ℝ} (hz : 0 ≤ z) :
      alongAxis (read (Eye.blank .perceived) (Triple.replicate z)) = z ^ model.gammaInverse := by
    show brightness (Triple.replicate z) ^ model.gammaInverse *
      Real.cos (Real.pi / 3 * purityOf (Triple.replicate z)) = _
    rw [purityOf_grey, mul_zero, Real.cos_zero, mul_one, brightness_grey hz]
  rw [apart, hoff, hoff, halong hx, halong hy, zero_mul, zero_mul, sub_zero, mul_zero, zero_add,
    add_zero, Real.sqrt_mul_self_eq_abs]

theorem apart_of_black_of_white {x y : ℝ} (h : x = 0 ∧ y = 1 ∨ x = 1 ∧ y = 0) :
    apart (read (Eye.blank .perceived) (Triple.replicate x))
      (read (Eye.blank .perceived) (Triple.replicate y)) = 1 := by
  rcases h with ⟨rfl, rfl⟩ | ⟨rfl, rfl⟩ <;>
    rw [apart_grey (by norm_num) (by norm_num), Real.zero_rpow gammaInverse_pos.ne',
      Real.one_rpow] <;> norm_num

/-- Black and white are 1 apart. -/
theorem originalAt_of_black_white (hctx : Surveyed ctx)
    (ho : ctx.original = [Triple.replicate 0, Triple.replicate 1]) {k l : ℕ} (hk : k < 2)
    (hl : l < 2) (hne : l ≠ k) : originalAt ctx k l = 1 := by
  interval_cases k <;> interval_cases l
  · exact absurd rfl hne
  · exact (originalAt_eq hctx (ho ▸ rfl) (ho ▸ rfl)).trans
      (apart_of_black_of_white (Or.inl ⟨rfl, rfl⟩))
  · exact (originalAt_eq hctx (ho ▸ rfl) (ho ▸ rfl)).trans
      (apart_of_black_of_white (Or.inr ⟨rfl, rfl⟩))
  · exact absurd rfl hne

open State in
/-- A search for black and white without a deficiency can be started from any two greys. -/
theorem exists_prepare_greys {settings : Settings ℝ} (hθ : 0 ≤ settings.zeroDistanceThreshold)
    {x y : ℝ} (hx : x ∈ Set.Icc (0 : ℝ) 1) (hy : y ∈ Set.Icc (0 : ℝ) 1) :
    ∃ (ctx : Context ℝ) (s : State ℝ),
      Context.ofLinear [Triple.replicate 0, Triple.replicate 1] .none settings = .ok ctx ∧
      (prepare ctx [Triple.replicate x, Triple.replicate y] 0).apply
        (State.idle ctx.deficiency .tabuSum) = .ok s ∧
      Regular ctx ∧ ctx.original = [Triple.replicate 0, Triple.replicate 1] ∧
      ctx.deficiency = .none ∧ ctx.settings = settings ∧ Ready ctx s ∧
      s.palette = [Triple.replicate x, Triple.replicate y] := by
  have hpair {x y : ℝ} (hx : x ∈ Set.Icc (0 : ℝ) 1) (hy : y ∈ Set.Icc (0 : ℝ) 1) :
      ∀ c ∈ [Triple.replicate x, Triple.replicate y], InGamut c := by
    intro c hc
    rcases List.mem_pair.1 hc with rfl | rfl
    · exact inGamut_grey hx
    · exact inGamut_grey hy
  obtain ⟨ctx, hctx, hregular, ho, hd, hset⟩ := exists_regular
    (hpair (Set.left_mem_Icc.2 zero_le_one) (Set.right_mem_Icc.2 zero_le_one)) .none hθ
  have hfits : Fits ctx [Triple.replicate x, Triple.replicate y] :=
    ⟨(congrArg List.length ho).symm, hpair hx hy⟩
  obtain ⟨s, hs⟩ := exists_prepare hregular (served_idle .tabuSum) hfits 0
  obtain ⟨hready, -⟩ := ready_of_prepare (served_idle .tabuSum) hfits hs
  exact ⟨ctx, s, hctx, hs, hregular, ho, hd, hset, hready, (phase_of_prepare hs).2⟩

/-- Without a deficiency greys are seen as far apart as they are. -/
theorem distance_of_greys {x y : ℝ} (hx : x ∈ Set.Icc (0 : ℝ) 1) (hy : y ∈ Set.Icc (0 : ℝ) 1)
    {a b : Eye ℝ} (ha : Deficiency.none.Sees (Triple.replicate x) a)
    (hb : Deficiency.none.Sees (Triple.replicate y) b) :
    a.distance b = .ok |x ^ model.gammaInverse - y ^ model.gammaInverse| := by
  have hread {x : ℝ} (hx : x ∈ Set.Icc (0 : ℝ) 1) {a : Eye ℝ}
      (ha : Deficiency.none.Sees (Triple.replicate x) a) :
      a.Agrees (read (Eye.blank .perceived) (Triple.replicate x)) :=
    Deficiency.Sees.agrees ha
      (sees_of_seen (seen_none (inGamut_grey hx)) fun k => (inGamut_grey hx k).1)
  rw [distance_eq (hread hx ha).left (hread hy hb).left, apart_congr (hread hx ha) (hread hy hb),
    apart_grey hx.1 hy.1]

end Exact

end Dichromat

end
