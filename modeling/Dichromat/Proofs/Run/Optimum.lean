import Dichromat.Proofs.Exact.Alike
import Dichromat.Proofs.Exact.Run

/-!
# What a result says about its run

The history of a result is that of its run, and its palette is one that the run has held, with the
best error as its error (`Result.KeepsBest`). In exact arithmetic every search in range returns such
a result if there are errors to lower (`optimize_keepsBest`).
-/

namespace Dichromat

variable {α : Type} [ColorArith α] {ctx : Context α} {draws rest : Draws α} {depth : α}

/-- The history of a result notes the least error after each Sum phase; the last note is its best
error. Its palette is one that a Sum phase has held, with just this error from scratch. -/
structure Result.KeepsBest (ctx : Context α) (draws : Draws α) (result : Result α) : Prop where
  initial : paletteError ctx ctx.original .sum = .ok result.initialError
  length : result.history.length = (Run.sumErrors result.phases).length
  least : ∀ (n : Nat) best, result.history[n]? = some best →
    IsLeastError best ((Run.sumErrors result.phases).take (n + 1))
  falling : ∀ (m n : Nat) (a : α) (b : Option α), m ≤ n →
    result.history[m]? = some (some a) →
    result.history[n]? = some b → isBelow a b = .ok false
  last : result.history.getLast? = some result.bestError
  not_above : isBelow result.initialError result.bestError = .ok false
  palette : ∃ s e, Run.Visits ctx draws s ∧ Stands result.bestError e ∧
    paletteError ctx s.palette .sum = .ok e ∧
    s.palette.mapM gammaOfLinearColor = .ok result.palette

/-- The initial error of a result is the error of the original palette. -/
theorem paletteError_original {result : Result α} (hne : ctx.original ≠ [])
    (h : ctx.optimize draws = .ok (result, rest)) :
    paletteError ctx ctx.original .sum = .ok result.initialError := by
  obtain ⟨depth, run₀, -, hstart, he₀, -⟩ := optimize_eq_ok hne h
  obtain ⟨hp, horiginal, -⟩ := Run.poised_of_start hstart
  obtain ⟨-, -, -, e₀, he₀', hagg⟩ := hp.fresh
  obtain rfl := Option.some.inj (he₀.symm.trans he₀')
  rw [← horiginal]
  exact (hp.opened_coherent.paletteError_eq .sum).trans hagg

/-- A run within a positive budget keeps the best of its palettes. -/
theorem keepsBest_of_optimize {result : Result α} (ho : Run.Orderly ctx draws)
    (hne : ctx.original ≠ []) (hdepth : ctx.searchDepth = .ok depth)
    (hbudget : Comparable.lt (Arith.whole 0) depth = .ok true)
    (h : ctx.optimize draws = .ok (result, rest))
    (hpositive : Comparable.le result.initialError (Arith.whole 0) = .ok false) :
    result.KeepsBest ctx draws := by
  have hinitial := paletteError_original hne h
  obtain ⟨depth', run₀, hdepth', hstart, he₀, ⟨hdone, -⟩ | ⟨-, run, hrun, hpalette, hbest, -, -,
    hphases, hhistory⟩⟩ := optimize_eq_ok hne h
  · exact nomatch hpositive.symm.trans hdone
  obtain rfl := Except.ok.inj (hdepth.symm.trans hdepth')
  have ht := Run.traced_of_ends ho hdepth hstart he₀ hbudget
    (Run.ends_of_alternate (.start hstart) hrun)
  obtain ⟨hp, -, -, -, -, -, hspent⟩ := Run.poised_of_start hstart
  obtain ⟨-, -, -, e₀, he₀', hagg⟩ := hp.fresh
  obtain rfl := Option.some.inj (he₀.symm.trans he₀')
  have hvisits : Run.Visits ctx draws run₀.sum.opened :=
    ⟨depth, run₀, hdepth, .start hstart, hspent ▸ hbudget, .first⟩
  obtain ⟨e, he, hle⟩ := ht.first
  have hne : Run.sumErrors run.phases ≠ [] := List.ne_nil_of_mem he
  have hleast := ht.tracks.isLeast ho.errors ht.met hne
  have habove : isBelow result.initialError run.bestError = .ok false := by
    rcases hle with rfl | hlt
    · exact hleast.not_below he
    · exact ho.errors.not_isBelow_of_lt (ht.met e he) ⟨_, hvisits, hagg⟩
        (fun b hb => ht.met b (ht.tracks.mem_of_best hb)) hlt (hleast.not_below he)
  obtain ⟨s, e, hs, hsp, hstands, herror⟩ := ht.palette
  constructor
  · exact hinitial
  · rw [hphases, hhistory]
    exact ht.tracks.length_eq
  · rw [hphases, hhistory]
    exact fun n best hn => ht.tracks.isLeast_take ho.errors ht.met hn
  · rw [hhistory]
    exact fun m n a b hmn hm hn => ht.tracks.falling ho.errors ht.met hmn hm hn
  · rw [hhistory, hbest]
    exact ht.tracks.getLast?_eq hne
  · rw [hbest]
    exact habove
  · exact ⟨s, e, hs, hbest ▸ hstands, herror, hsp ▸ hpalette⟩

open Exact in
/-- In exact arithmetic every search in range returns, and its result keeps the best palette if
there are errors to lower. In any other numbers a result does so too, as long as the errors that it
has met are in order. -/
theorem optimize_keepsBest :
    (∀ (palette : Palette ℝ) (d : Deficiency) (settings : Settings ℝ) (draws : Draws ℝ),
      palette.InRange → settings.validate = .ok () → 0 ≤ settings.zeroDistanceThreshold →
      ∃ ctx result rest, Context.ofGamma palette d settings = .ok ctx ∧
        optimize palette d settings draws = .ok (result, rest) ∧
        (0 < result.initialError → result.KeepsBest ctx draws)) ∧
    (∀ (α : Type) [ColorArith α] (ctx : Context α) (draws rest : Draws α) (depth : α)
      (result : Result α), Run.Orderly ctx draws → ctx.original ≠ [] →
      ctx.searchDepth = .ok depth → Comparable.lt (Arith.whole 0) depth = .ok true →
      ctx.optimize draws = .ok (result, rest) →
      Comparable.le result.initialError (Arith.whole 0) = .ok false →
      result.KeepsBest ctx draws) := by
  constructor
  · intro palette d settings draws hpalette hsettings hthreshold
    obtain ⟨ctx, hctx, hregular, -, -, rfl⟩ := exists_ofGamma hpalette d hthreshold
    rw [optimize_eq hsettings hctx]
    by_cases hne : ctx.original = []
    · have hempty : ctx.original.isEmpty = true := List.isEmpty_iff.2 hne
      unfold Context.optimize
      rw [if_pos hempty]
      refine ⟨ctx, _, _, hctx, rfl, fun h => absurd h ?_⟩
      rw [decimal_zero]
      exact lt_irrefl 0
    · have hfunded := funded_of_validate hsettings hne
      obtain ⟨result, rest, hresult⟩ := exists_optimize hregular hfunded draws
      refine ⟨ctx, result, rest, hctx, hresult, fun hpositive => ?_⟩
      exact keepsBest_of_optimize (orderly hregular draws) hne (searchDepth_eq ctx)
        (searchDepth_pos hfunded) hresult (not_le_zero hpositive)
  · intro α _ ctx draws rest depth result ho hne hdepth hbudget h hpositive
    exact keepsBest_of_optimize ho hne hdepth hbudget h hpositive

/-! ### Colours that a red-blind eye does not tell apart -/

namespace Exact

/-- Green light hides a little blue light from a red-blind eye. -/
theorem seen_green {b : ℝ} (hb : b ≤ 1 / 255) : Deficiency.red.seen ⟨0, 1, b⟩ =
    .ok (⟨0.8876119706946073, 0.8876119706946073, 0⟩ : Triple ℝ) := by
  have hlight : Deficiency.red.light ⟨0, 1, b⟩ =
      .ok (⟨0.8876119706946073, 0.8876119706946073, b - 0.004005734096601488⟩ : Triple ℝ) := by
    simp only [Deficiency.light, Deficiency.lightOf, Deficiency.redBlindYellow,
      Deficiency.redBlindBlue, Triple.term, Triple.get, calc_scientific, calc_mul, calc_add,
      calc_sub, ok_bind, mul_zero, mul_one, zero_add, zero_sub, pure_eq_ok, Triple.mk.injEq,
      true_and]
    exact neg_add_eq_sub _ _
  have hyellow : min (max (0.8876119706946073 : ℝ) 0) 1 = 0.8876119706946073 := by norm_num
  have hblue : min (max (b - 0.004005734096601488) 0) 1 = 0 := by
    rw [max_eq_right (by norm_num at hb ⊢; linarith), min_eq_left zero_le_one]
  simp only [Deficiency.seen, hlight, ok_bind, Triple.mapM, confined_eq, hyellow, hblue]
  rfl

theorem apart_green_pos {b : ℝ} (hb₀ : 0 < b) (hb₁ : b ≤ 1 / 255) :
    0 < apart (read (Eye.blank .perceived) ⟨0, 1, 0⟩) (read (Eye.blank .perceived) ⟨0, 1, b⟩) := by
  have hsmall := smallest_lt_half
  have hpure {c : Triple ℝ} (hwhite : (tint c).white = 0)
      (hlight : model.smallest ≤ (tint c).light) : purityOf c = 1 := by
    rw [purityOf, if_neg (not_lt.2 hlight)]
    exact purity_of_white hwhite (smallest_pos.trans_le hlight)
  have hp₁ : purityOf ⟨0, 1, 0⟩ = 1 := by
    refine hpure ?_ ?_ <;> simp [lowest, tint, Triple.get, Channel.anchors]
    linarith
  have hp₂ : purityOf ⟨0, 1, b⟩ = 1 := by
    refine hpure ?_ ?_ <;> simp [lowest, tint, Triple.get, Channel.anchors, hb₀]
    linarith
  have hbright : brightness ⟨0, 1, 0⟩ < brightness ⟨0, 1, b⟩ := by
    have hfelt : 0 < model.normalSensitivity.get .blue * b := mul_pos (sensitivity_pos _) hb₀
    have hmax : maxFelt ⟨0, 1, 0⟩ ≤ maxFelt ⟨0, 1, b⟩ := by
      refine max_le_max le_rfl ?_
      simpa [felt, Triple.get] using hfelt.le
    have hsum : felt ⟨0, 1, 0⟩ .blue < felt ⟨0, 1, b⟩ .blue := by
      simpa [felt, Triple.get] using hfelt
    have hshare := dimmestShare_pos
    have hrest := sub_pos.2 dimmestShare_lt_one
    unfold brightness
    refine add_lt_add_of_lt_of_le (mul_lt_mul_of_pos_left ?_ hshare)
      (mul_le_mul_of_nonneg_left hmax hrest.le)
    exact add_lt_add_of_le_of_lt le_rfl hsum
  refine lt_of_le_of_ne (Real.sqrt_nonneg _) fun hzero => ?_
  have halong := alongAxis_eq_of_apart hzero.symm
  have hcos : Real.cos (Real.pi / 3 * 1) ≠ 0 := by
    rw [mul_one, Real.cos_pi_div_three]
    norm_num
  have hread (c : Triple ℝ) : alongAxis (read (Eye.blank .perceived) c) =
      brightness c ^ model.gammaInverse * Real.cos (Real.pi / 3 * purityOf c) := rfl
  rw [hread, hread, hp₁, hp₂] at halong
  have hnonneg : 0 ≤ brightness ⟨0, 1, 0⟩ := by
    refine brightness_nonneg fun k => ?_
    cases k <;> simp [Triple.get]
  exact (Real.rpow_lt_rpow hnonneg hbright gammaInverse_pos).ne (mul_right_cancel₀ hcos halong)

/-- The faintest blue channel is hidden. -/
theorem exists_faint_blue : ∃ b : ℝ, 0 < b ∧ b ≤ 1 / 255 ∧
    [[(0 : ℝ), 255, 0], [0, 255, 1]].mapM linearOfGammaColor = .ok [⟨0, 1, 0⟩, ⟨0, 1, b⟩] := by
  have hgreen : linearOfGammaColor [(0 : ℝ), 255, 0] = .ok ⟨0, 1, 0⟩ := by
    rw [linearOfGammaColor_eq le_rfl (by norm_num) le_rfl, zero_div, div_self (by norm_num),
      Real.zero_rpow gamma_pos.ne', Real.one_rpow]
  have hblue : linearOfGammaColor [(0 : ℝ), 255, 1] = .ok ⟨0, 1, (1 / 255) ^ model.gamma⟩ := by
    rw [linearOfGammaColor_eq le_rfl (by norm_num) zero_le_one, zero_div, div_self (by norm_num),
      Real.zero_rpow gamma_pos.ne', Real.one_rpow]
  have hle : (1 / 255 : ℝ) ^ model.gamma ≤ (1 / 255) ^ (1 : ℝ) :=
    Real.rpow_le_rpow_of_exponent_ge (by norm_num) (by norm_num) (show (1 : ℝ) ≤ 2.2 by norm_num)
  exact ⟨_, Real.rpow_pos_of_pos (by norm_num) _, hle.trans_eq (Real.rpow_one _),
    mapM_eq_ok_iff.2 (.cons hgreen (.cons hblue .nil))⟩

theorem originalAt_greens_pos {ctx : Context ℝ} (hctx : Surveyed ctx) {b : ℝ} (hb₀ : 0 < b)
    (hb₁ : b ≤ 1 / 255) (horiginal : ctx.original = [⟨0, 1, 0⟩, ⟨0, 1, b⟩]) :
    0 < originalAt ctx 0 1 := by
  rw [originalAt_eq hctx (by rw [horiginal]; rfl) (by rw [horiginal]; rfl)]
  exact apart_green_pos hb₀ hb₁

/-- Green with and without a little blue has an error for a red-blind eye, where every original
distance counts. -/
theorem exists_greens {settings : Settings ℝ} (hsettings : settings.validate = .ok ())
    (hthreshold : settings.zeroDistanceThreshold = 0) :
    ∃ ctx, Context.ofGamma [[0, 255, 0], [0, 255, 1]] .red settings = .ok ctx ∧ Regular ctx ∧
      Funded ctx ∧ ctx.size = 2 ∧ ctx.settings = settings ∧
      ∀ draws result rest, ctx.optimize draws = .ok (result, rest) → 0 < result.initialError := by
  obtain ⟨ctx, hctx, hregular, hlinear, hd, hset⟩ :=
    exists_ofGamma Palette.inRange_greens .red hthreshold.ge
  obtain ⟨b, hb₀, hb₁, hb⟩ := exists_faint_blue
  have horiginal : ctx.original = [⟨0, 1, 0⟩, ⟨0, 1, b⟩] := Except.ok.inj (hlinear.symm.trans hb)
  have hne : ctx.original ≠ [] := by
    rw [horiginal]
    exact List.cons_ne_nil _ _
  have hseen : ctx.deficiency.seen ⟨0, 1, 0⟩ = ctx.deficiency.seen ⟨0, 1, b⟩ := by
    rw [hd, seen_green (by norm_num), seen_green hb₁]
  refine ⟨ctx, hctx, hregular, funded_of_validate (hset ▸ hsettings) hne, ?_, hset,
    fun draws result rest h => ?_⟩
  · rw [Context.size, horiginal]
    rfl
  · have hfar : ctx.settings.zeroDistanceThreshold < originalAt ctx 0 1 := by
      rw [hset, hthreshold]
      exact originalAt_greens_pos hregular.toSurveyed hb₀ hb₁ horiginal
    have hpenalty : 0 < ctx.settings.collapsePenalty :=
      (validate_eq_ok_iff.1 (hset ▸ hsettings)).2.2.2.2
    obtain ⟨e, he, hle⟩ := paletteError_of_alike hregular hregular.original
      (by rw [horiginal]; rfl) (by rw [horiginal]; rfl) one_ne_zero hseen hfar hpenalty.le
    rw [← Except.ok.inj (he.symm.trans (paletteError_original hne h))]
    exact hpenalty.trans_le hle

end Exact

open Exact in
/-- Green with and without a little blue, where every original distance counts. -/
theorem optimize_keepsBest_green :
    ∃ (ctx : Context ℝ) (settings : Settings ℝ) (draws rest : Draws ℝ) (depth : ℝ)
      (result : Result ℝ),
      settings.validate = .ok () ∧ 0 ≤ settings.zeroDistanceThreshold ∧
      Context.ofGamma [[0, 255, 0], [0, 255, 1]] .red settings = .ok ctx ∧
      optimize [[0, 255, 0], [0, 255, 1]] .red settings draws = .ok (result, rest) ∧
      Run.Orderly ctx draws ∧ ctx.searchDepth = .ok depth ∧
      Comparable.lt (Arith.whole 0) depth = .ok true ∧ ctx.optimize draws = .ok (result, rest) ∧
      0 < result.initialError ∧ result.KeepsBest ctx draws := by
  let settings : Settings ℝ := { Settings.standard with zeroDistanceThreshold := 0 }
  let draws : Draws ℝ := .sequence (fun _ => 1 / 2) 0
  have hsettings : settings.validate = .ok () :=
    validate_eq_ok_iff.2 (validate_eq_ok_iff.1 validate_standard)
  have hthreshold : 0 ≤ settings.zeroDistanceThreshold := le_rfl
  obtain ⟨ctx, hctx, hregular, hfunded, -, -, hpositive⟩ := exists_greens hsettings rfl
  obtain ⟨ctx', result, rest, hctx', hresult, hkeeps⟩ := optimize_keepsBest.1
    [[0, 255, 0], [0, 255, 1]] .red settings draws Palette.inRange_greens hsettings hthreshold
  obtain rfl := Except.ok.inj (hctx.symm.trans hctx')
  have hresult' : ctx.optimize draws = .ok (result, rest) := by
    rw [← optimize_eq hsettings hctx]
    exact hresult
  have hpositive := hpositive draws result rest hresult'
  have hne : ctx.original ≠ [] := List.ne_nil_of_length_pos hfunded.size
  have horderly := orderly hregular draws
  have hdepth := searchDepth_pos hfunded
  exact ⟨ctx, settings, draws, rest, _, result, hsettings, hthreshold, hctx, hresult, horderly,
    searchDepth_eq ctx, hdepth, hresult', hpositive, optimize_keepsBest.2 ℝ ctx draws rest _ result
      horderly hne (searchDepth_eq ctx) hdepth hresult' (not_le_zero hpositive)⟩

end Dichromat
