import Dichromat.Proofs.Exact.Gamut
import Dichromat.Proofs.Run.Optimum

/-!
# The palette that is returned

The best error of a result is the error of a linear palette that the search has held, and is not
above the initial one; the palette that is returned is the encoding of this linear palette
(`exists_encodes`). Encoding moves every channel by up to a half. Where there is nothing to round the
palette that is returned has the best error (`optimize_returnedError`), but colours that lie between
whole numbers may fall together (`optimize_returnedError_greys`).
-/

noncomputable section

namespace Dichromat

section Result

variable {α : Type} [ColorArith α]

/-- The palette of a result, as one that can be searched. -/
def Result.returned (result : Result α) : Palette α :=
  result.palette.map fun c => c.toList.map Arith.whole

/-- The Sum error of the palette of a result, in the context of its search. -/
def Result.returnedError (result : Result α) (ctx : Context α) : Calc α := do
  let linear ← result.returned.mapM linearOfGammaColor
  paletteError ctx linear .sum

end Result

/-- The best error of a result is that of a linear palette, and its palette is this one, encoded. -/
structure Result.Encodes (result : Result ℝ) (ctx : Context ℝ) (linear : List (Triple ℝ))
    (best : ℝ) : Prop where
  palette : linear.mapM gammaOfLinearColor = .ok result.palette
  initial : paletteError ctx ctx.original .sum = .ok result.initialError
  error : paletteError ctx linear .sum = .ok best
  bestError : result.bestError = some best
  not_above : best ≤ result.initialError

namespace Exact

variable {ctx : Context ℝ} {draws : Draws ℝ} {result : Result ℝ} {linear : List (Triple ℝ)}
  {best : ℝ}

/-! ### The best palette -/

theorem encodes_of_unsearched (h : result.Unsearched ctx)
    (hinitial : paletteError ctx ctx.original .sum = .ok result.initialError) :
    result.Encodes ctx ctx.original result.initialError :=
  ⟨h.palette, hinitial, hinitial, h.bestError, le_rfl⟩

theorem exists_encodes_of_keepsBest (hctx : Regular ctx) (h : result.KeepsBest ctx draws) :
    ∃ linear best, Fits ctx linear ∧ result.Encodes ctx linear best := by
  obtain ⟨s, e, ⟨depth, run, -, hrun, -, hs⟩, hstands, herror, hpalette⟩ := h.palette
  have hfits := ((fit_of_reached hctx hrun).ready.1.opened.iterated hs).1.palette
  have hbest : result.bestError = some e := hstands.resolve_right fun h => nomatch h.2
  have hle : e ≤ result.initialError := by
    have hnot := h.not_above
    rw [hbest, isBelow_some, Except.ok.injEq, decide_eq_false_iff_not] at hnot
    exact not_lt.1 hnot
  exact ⟨s.palette, e, hfits, hpalette, h.initial, herror, hbest, hle⟩

/-- Checked settings give a result, and without errors to lower its palette is the original one. -/
theorem exists_encodes (hctx : Regular ctx) (hsettings : ctx.settings.validate = .ok ())
    (draws : Draws ℝ) : ∃ result rest linear best, ctx.optimize draws = .ok (result, rest) ∧
      Fits ctx linear ∧ result.Encodes ctx linear best ∧
      (result.initialError = 0 → linear = ctx.original) := by
  obtain ⟨result, rest, h⟩ := exists_optimize_of_validate hctx hsettings draws
  refine ⟨result, rest, ?_⟩
  by_cases hne : ctx.original = []
  · obtain ⟨hunsearched, hzero⟩ := unsearched_of_isEmpty hne h
    have hinitial : paletteError ctx ctx.original .sum = .ok result.initialError := by
      rw [hne, paletteError_nil, hzero, decimal_zero]
    exact ⟨_, _, h, hctx.original, encodes_of_unsearched hunsearched hinitial, fun _ => rfl⟩
  · have hinitial := paletteError_original hne h
    obtain ⟨depth, run₀, -, -, -, ⟨-, hunsearched, -⟩ | ⟨hpositive, -⟩⟩ := optimize_eq_ok hne h
    · exact ⟨_, _, h, hctx.original, encodes_of_unsearched hunsearched hinitial, fun _ => rfl⟩
    · have hkeeps := keepsBest_of_optimize (orderly hctx draws) hne (searchDepth_eq ctx)
        (searchDepth_pos (funded_of_validate hsettings hne)) h hpositive
      obtain ⟨linear, best, hfits, hencodes⟩ := exists_encodes_of_keepsBest hctx hkeeps
      refine ⟨linear, best, h, hfits, hencodes, fun hzero => ?_⟩
      rw [hzero, le_eq, whole_eq, Int.cast_zero, decide_eq_true le_rfl] at hpositive
      exact nomatch hpositive

/-- Without a deficiency there are no errors to lower. -/
theorem eq_original_of_none (hctx : Regular ctx) (hd : ctx.deficiency = .none)
    (h : result.Encodes ctx linear best) (hzero : result.initialError = 0 → linear = ctx.original) :
    result.initialError = 0 ∧ linear = ctx.original ∧ best = 0 := by
  have herror := paletteError_of_none hctx hd
  have hinitial : result.initialError = 0 := Except.ok.inj (h.initial.symm.trans herror)
  have horiginal := hzero hinitial
  exact ⟨hinitial, horiginal, Except.ok.inj (h.error.symm.trans (horiginal ▸ herror))⟩

/-! ### Rounding -/

theorem palette_of_encodes (h : result.Encodes ctx linear best) :
    result.palette = linear.map encoded :=
  Except.ok.inj (h.palette.symm.trans (gammaOfLinearColors_eq linear))

section Whole

variable {whole : List (Triple ℤ)} (hwhole : ∀ c ∈ whole, ∀ k, c.get k ∈ Set.Icc (0 : ℤ) 255)

include hwhole

theorem returnedError_eq (h : result.palette = whole) :
    result.returnedError ctx = paletteError ctx (whole.map decoded) .sum := by
  have hreturned : result.returned = whole.map fun c => c.toList.map (Int.cast : ℤ → ℝ) := by
    rw [Result.returned, h]
    rfl
  rw [Result.returnedError, hreturned,
    linearOfGammaColors_toList fun c hc k => (hwhole c hc k).1, ok_bind]

theorem fits_decoded (hlength : whole.length = ctx.size) : Fits ctx (whole.map decoded) := by
  refine ⟨(List.length_map _).trans hlength, fun c hc k => ?_⟩
  obtain ⟨n, hn, rfl⟩ := List.mem_map.1 hc
  exact decoded_mem (hwhole n hn k)

theorem map_encoded_decoded : (whole.map decoded).map encoded = whole := by
  rw [List.map_map]
  exact (List.map_congr_left fun c hc => encoded_decoded fun k => (hwhole c hc k).1).trans
    (List.map_id _)

end Whole

/-- The palette that is returned can be searched again. -/
theorem exists_returnedError (hctx : Regular ctx) (hlinear : Fits ctx linear)
    (h : result.palette = linear.map encoded) : ∃ e, result.returnedError ctx = .ok e := by
  have hfits : Fits ctx ((linear.map encoded).map decoded) :=
    fits_decoded hlinear.encoded_mem ((List.length_map _).trans hlinear.length)
  obtain ⟨eyes, -, herror⟩ := exists_paletteError hctx hfits
  exact ⟨_, (returnedError_eq hlinear.encoded_mem h).trans herror⟩

/-! ### Greys -/

theorem linearOfGammaColor_grey {x : ℝ} (h : 0 ≤ x) :
    linearOfGammaColor [x, x, x] = .ok (Triple.replicate ((x / 255) ^ model.gamma)) :=
  linearOfGammaColor_eq h h h

theorem encoded_grey {x : ℝ} {n : ℤ} (hx : 0 ≤ x) (h : |x - n| < 1 / 2) :
    encoded (Triple.replicate ((x / 255) ^ model.gamma)) = Triple.replicate n := by
  refine Triple.ext_get fun k => ?_
  rw [encoded, Triple.get_map, get_replicate, get_replicate, encodedChannel_decoded hx,
    nearestEven_of_abs_sub_lt h]

theorem apart_decoded_grey {x y : ℝ} (hx : 0 ≤ x) (hy : 0 ≤ y) :
    apart (read (Eye.blank .perceived) (Triple.replicate ((x / 255) ^ model.gamma)))
      (read (Eye.blank .perceived) (Triple.replicate ((y / 255) ^ model.gamma))) =
      |x / 255 - y / 255| := by
  have hx' : 0 ≤ x / 255 := div_nonneg hx (by norm_num)
  have hy' : 0 ≤ y / 255 := div_nonneg hy (by norm_num)
  rw [apart_grey (Real.rpow_nonneg hx' _) (Real.rpow_nonneg hy' _), gammaInverse_eq,
    Real.rpow_rpow_inv hx' gamma_pos.ne', Real.rpow_rpow_inv hy' gamma_pos.ne']

theorem inRange_greys : Palette.InRange [[9.6, 9.6, 9.6], [10.4, 10.4, 10.4]] := by
  intro color hcolor
  rcases List.mem_pair.1 hcolor with rfl | rfl <;> norm_num

/-- The greys are further apart than the standard threshold. -/
theorem exists_greys :
    ∃ ctx, Context.ofGamma [[9.6, 9.6, 9.6], [10.4, 10.4, 10.4]] .none Settings.standard = .ok ctx ∧
      Regular ctx ∧ ctx.deficiency = .none ∧ ctx.settings = Settings.standard ∧
      ctx.original = [Triple.replicate ((9.6 / 255) ^ model.gamma),
        Triple.replicate ((10.4 / 255) ^ model.gamma)] ∧
      ctx.settings.zeroDistanceThreshold < originalAt ctx 0 1 := by
  have hlow : (0 : ℝ) ≤ 9.6 := by norm_num
  have hhigh : (0 : ℝ) ≤ 10.4 := by norm_num
  obtain ⟨ctx, hctx, hregular, hlinear, hd, hset⟩ :=
    exists_ofGamma inRange_greys .none standard_threshold_nonneg
  have horiginal : ctx.original = [Triple.replicate ((9.6 / 255) ^ model.gamma),
      Triple.replicate ((10.4 / 255) ^ model.gamma)] := by
    refine Except.ok.inj (hlinear.symm.trans (mapM_eq_ok_iff.2 ?_))
    exact .cons (linearOfGammaColor_grey hlow) (.cons (linearOfGammaColor_grey hhigh) .nil)
  refine ⟨ctx, hctx, hregular, hd, hset, horiginal, ?_⟩
  rw [originalAt_eq hregular.toSurveyed (by rw [horiginal]; rfl) (by rw [horiginal]; rfl),
    apart_decoded_grey hlow hhigh, hset, standard_threshold, abs_of_nonpos (by norm_num)]
  norm_num

end Exact

open Exact

/-- A search of a palette in range gives the encoding of a palette whose error is the best error and
is not above the initial one. Encoding moves no channel by more than a half; a palette of whole
numbers, decoded, is returned with just this error. -/
theorem optimize_returnedError (palette : Palette ℝ) (d : Deficiency) (settings : Settings ℝ)
    (draws : Draws ℝ) (hpalette : palette.InRange) (hsettings : settings.validate = .ok ())
    (hthreshold : 0 ≤ settings.zeroDistanceThreshold) :
    ∃ ctx result rest linear best, Context.ofGamma palette d settings = .ok ctx ∧
      optimize palette d settings draws = .ok (result, rest) ∧
      (∀ c ∈ linear, InGamut c) ∧ result.Encodes ctx linear best ∧
      (result.initialError = 0 → linear = ctx.original) ∧
      (∃ e, result.returnedError ctx = .ok e) ∧
      List.Forall₂ (fun (c : Triple ℝ) (n : Triple ℤ) => ∀ k,
        |c.get k ^ model.gammaInverse * 255 - n.get k| ≤ 1 / 2) linear result.palette ∧
      ∀ whole : List (Triple ℤ), (∀ c ∈ whole, ∀ k, c.get k ∈ Set.Icc (0 : ℤ) 255) →
        linear = whole.map decoded →
        result.palette = whole ∧ result.returnedError ctx = .ok best := by
  obtain ⟨ctx, hctx, hregular, -, -, rfl⟩ := exists_ofGamma hpalette d hthreshold
  obtain ⟨result, rest, linear, best, h, hfits, hencodes, hzero⟩ :=
    exists_encodes hregular hsettings draws
  have hencoded := palette_of_encodes hencodes
  refine ⟨ctx, result, rest, linear, best, hctx, optimize_eq hsettings hctx draws ▸ h, hfits.gamut,
    hencodes, hzero, exists_returnedError hregular hfits hencoded, ?_, fun whole hwhole hlinear => ?_⟩
  · rw [hencoded, List.forall₂_map_right_iff]
    refine List.forall₂_same.2 fun c hc k => ?_
    rw [encoded, Triple.get_map]
    exact abs_sub_encodedChannel_le (hfits.nonneg c hc k)
  · have hreturned : result.palette = whole := by
      rw [hencoded, hlinear, map_encoded_decoded hwhole]
    refine ⟨hreturned, ?_⟩
    rw [returnedError_eq hwhole hreturned, ← hlinear]
    exact hencodes.error

/-- Without a deficiency a palette of whole numbers is returned as it is. -/
theorem optimize_returnedError_greens :
    ∃ (ctx : Context ℝ) (settings : Settings ℝ) (draws rest : Draws ℝ) (result : Result ℝ),
      Palette.InRange [[0, 255, 0], [0, 255, 1]] ∧ settings.validate = .ok () ∧
      0 ≤ settings.zeroDistanceThreshold ∧
      Context.ofGamma [[0, 255, 0], [0, 255, 1]] .none settings = .ok ctx ∧
      optimize [[0, 255, 0], [0, 255, 1]] .none settings draws = .ok (result, rest) ∧
      result.palette = [⟨0, 255, 0⟩, ⟨0, 255, 1⟩] ∧ result.initialError = 0 ∧
      result.returnedError ctx = .ok 0 := by
  let whole : List (Triple ℤ) := [⟨0, 255, 0⟩, ⟨0, 255, 1⟩]
  let draws : Draws ℝ := .sequence (fun _ => 1 / 2) 0
  obtain ⟨ctx', hctx', hregular, hlinear, hd, -⟩ :=
    exists_ofGamma Palette.inRange_greens .none standard_threshold_nonneg
  obtain ⟨ctx, result, rest, linear, best, hctx, h, -, hencodes, hzero, -, -, hreturned⟩ :=
    optimize_returnedError [[0, 255, 0], [0, 255, 1]] .none Settings.standard draws
      Palette.inRange_greens validate_standard standard_threshold_nonneg
  obtain rfl := Except.ok.inj (hctx'.symm.trans hctx)
  obtain ⟨hinitial, horiginal, rfl⟩ := eq_original_of_none hregular hd hencodes hzero
  have hwhole : ∀ c ∈ whole, ∀ k, c.get k ∈ Set.Icc (0 : ℤ) 255 := by
    intro c hc k
    rcases List.mem_pair.1 hc with rfl | rfl <;> cases k <;> decide
  have hdecoded : linear = whole.map decoded := by
    have hcast : [[(0 : ℝ), 255, 0], [0, 255, 1]] =
        whole.map fun c => c.toList.map (Int.cast : ℤ → ℝ) := by
      simp [whole, Triple.toList]
    rw [hcast, linearOfGammaColors_toList fun c hc k => (hwhole c hc k).1] at hlinear
    rw [horiginal, Except.ok.inj hlinear]
  obtain ⟨hpalette, hbest⟩ := hreturned whole hwhole hdecoded
  exact ⟨ctx', _, draws, rest, result, Palette.inRange_greens, validate_standard,
    standard_threshold_nonneg, hctx, h, hpalette, hinitial, hbest⟩

/-- Two greys on either side of a whole number fall together in the palette that is returned, although
the best error is 0. -/
theorem optimize_returnedError_greys :
    ∃ ctx : Context ℝ, Palette.InRange [[9.6, 9.6, 9.6], [10.4, 10.4, 10.4]] ∧
      (Settings.standard : Settings ℝ).validate = .ok () ∧
      0 ≤ (Settings.standard : Settings ℝ).zeroDistanceThreshold ∧
      Context.ofGamma [[9.6, 9.6, 9.6], [10.4, 10.4, 10.4]] .none Settings.standard = .ok ctx ∧
      ∀ draws, ∃ result rest e,
        optimize [[9.6, 9.6, 9.6], [10.4, 10.4, 10.4]] .none Settings.standard draws =
          .ok (result, rest) ∧
        result.palette = [⟨10, 10, 10⟩, ⟨10, 10, 10⟩] ∧ result.initialError = 0 ∧
        result.bestError = some 0 ∧ result.returnedError ctx = .ok e ∧
        ¬ e ≤ result.initialError := by
  obtain ⟨ctx, hctx, hregular, hd, hset, horiginal, hfar⟩ := exists_greys
  have hsettings : ctx.settings.validate = .ok () := hset ▸ validate_standard
  refine ⟨ctx, inRange_greys, validate_standard, standard_threshold_nonneg, hctx,
    fun draws => ?_⟩
  obtain ⟨result, rest, linear, best, h, hfits, hencodes, hzero⟩ :=
    exists_encodes hregular hsettings draws
  obtain ⟨hinitial, hlinear, rfl⟩ := eq_original_of_none hregular hd hencodes hzero
  have hpalette : result.palette = [⟨10, 10, 10⟩, ⟨10, 10, 10⟩] := by
    rw [palette_of_encodes hencodes, hlinear, horiginal, List.map_cons, List.map_cons,
      encoded_grey (n := 10) (by norm_num) (by norm_num [abs_lt]),
      encoded_grey (n := 10) (by norm_num) (by norm_num [abs_lt])]
    rfl
  have hwhole : ∀ c ∈ [(⟨10, 10, 10⟩ : Triple ℤ), ⟨10, 10, 10⟩], ∀ k,
      c.get k ∈ Set.Icc (0 : ℤ) 255 := by
    intro c hc k
    rcases List.mem_pair.1 hc with rfl | rfl <;> cases k <;> decide
  have hlength : [(⟨10, 10, 10⟩ : Triple ℤ), ⟨10, 10, 10⟩].length = ctx.size := by
    rw [Context.size, horiginal]
    rfl
  have hpenalty := (validate_eq_ok_iff.1 hsettings).2.2.2.2
  obtain ⟨e, he, hle⟩ := paletteError_of_alike hregular (fits_decoded hwhole hlength)
    (k := 0) (l := 1) rfl rfl one_ne_zero rfl hfar hpenalty.le
  refine ⟨result, rest, e, optimize_eq validate_standard hctx draws ▸ h, hpalette, hinitial,
    hencodes.bestError, (returnedError_eq hwhole hpalette).trans he, ?_⟩
  rw [hinitial, not_le]
  exact hpenalty.trans_le hle

end Dichromat

end
