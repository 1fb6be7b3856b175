import Dichromat.Proofs.Exact.Run

/-!
# The gamut

No search leaves the gamut, whatever its settings are and whatever is drawn: all palettes that a run
holds have channels from 0 to 1 (`fits_of_holds`), and so the palette of a result has as many colours
as the original one, with channels from 0 to 255 (`optimize_inGamut`).
-/

noncomputable section

namespace Dichromat

namespace Exact

open State Update

variable {ctx : Context ℝ} {s t : State ℝ} {run r : Run ℝ} {draws rest : Draws ℝ} {depth : ℝ}

/-! ### Explorations -/

/-- In all states that an exploration goes through. -/
theorem Ready.explores (hctx : Regular ctx) (hs : Ready ctx s) (h : Explores ctx s draws t) :
    Fits ctx t.palette ∧ Fits ctx t.bestPalette := by
  cases h with
  | prepared => exact ⟨hs.palette, hs.bestPalette⟩
  | begun _ h =>
    have ht := (hs.opened.iterated h).1
    exact ⟨ht.palette, ht.bestPalette⟩
  | recorded _ h _ hr =>
    have ht := (hs.opened.iterated h).1.recorded hr
    exact ⟨ht.palette, ht.bestPalette⟩
  | @shaken n _ _ _ hn h =>
    have hshaken := (runOn_shakeColors_range (s := { s with phase := .exploring }) hn
      hs.palette.gamut draws).symm.trans h
    obtain ⟨-, rfl, -⟩ := by simpa only [Prod.mk.injEq] using hshaken
    exact ⟨hs.palette.shakenUpTo draws n, hs.bestPalette⟩
  | done h =>
    obtain ⟨-, ⟨-, hshake⟩ | ⟨-, htabu, -⟩⟩ := explore_eq_ok.1 h
    · obtain ⟨t', rest', ht', -, hbest, heq, -⟩ :=
        exists_exploreShake hctx hs.coherent.projector hs.palette draws
      obtain ⟨rfl, -⟩ := Prod.mk.inj (Except.ok.inj (ht'.symm.trans hshake))
      exact ⟨heq ▸ hbest, hbest⟩
    · obtain ⟨t', ht', hready, -⟩ := exists_exploreTabu hs
      obtain rfl := Except.ok.inj (ht'.symm.trans htabu)
      exact ⟨hready.palette, hready.bestPalette⟩

/-! ### Runs -/

/-- A run that starts has errors for all pairs. -/
theorem regular_of_reached (hctx : Surveyed ctx) (h : Run.Reached ctx depth draws run) :
    Regular ctx := by
  induction h with
  | start h =>
    obtain ⟨sum, hsum, -⟩ := bind_eq_ok.1 h
    exact regular_of_prepare hctx (Projector.serves_ofDeficiency _) rfl hsum
  | next _ _ _ _ _ ih => exact ih

theorem Rested.ready_disturber (hr : Rested ctx r) (h : Run.disturber ctx r = .ok s) :
    Ready ctx s := by
  rw [Run.disturber_eq] at h
  exact (ready_of_prepare hr.serves hr.source h).1

theorem fits_of_holds (hctx : Surveyed ctx) (h : Run.Holds ctx depth draws s) :
    Fits ctx s.palette ∧ Fits ctx s.bestPalette := by
  cases h with
  | opening h =>
    obtain ⟨hpalette, hbest, -⟩ := begun_of_runOn_prepare (iterationLimit_eq ..) h
    rw [hpalette, hbest]
    exact ⟨hctx.original, hctx.original⟩
  | sum h hs =>
    have hregular := regular_of_reached hctx h
    exact (fit_of_reached hregular h).ready.1.explores hregular hs
  | disturber h _ hr _ hprepared hs =>
    have hregular := regular_of_reached hctx h
    have hrested := (fit_of_reached hregular h).rested hr
    exact (hrested.ready_disturber hprepared).explores hregular hs

/-- The best palette of a run before and after its Sum phases. -/
theorem fits_best_of_reached (hctx : Surveyed ctx) (h : Run.Reached ctx depth draws run) :
    Fits ctx run.bestPalette ∧
      ∀ r, Run.searchPhase ctx run = .ok r → Fits ctx r.bestPalette := by
  have hfit := fit_of_reached (regular_of_reached hctx h) h
  exact ⟨hfit.bestPalette, fun r hr => (hfit.rested hr).bestPalette⟩

/-! ### Results -/

theorem Fits.encoded_mem {palette : List (Triple ℝ)} (h : Fits ctx palette) :
    ∀ n ∈ palette.map encoded, ∀ k, n.get k ∈ Set.Icc (0 : ℤ) 255 := by
  intro n hn k
  obtain ⟨c, hc, rfl⟩ := List.mem_map.1 hn
  rw [encoded, Triple.get_map]
  exact encodedChannel_mem (h.gamut c hc k)

theorem fits_of_ends (hctx : Surveyed ctx) (h : Run.Ends ctx depth draws run) :
    Fits ctx run.bestPalette := by
  rcases h with ⟨h, -⟩ | ⟨h, -, hr, -⟩
  · exact (fits_best_of_reached hctx h).1
  · exact (fits_best_of_reached hctx h).2 _ hr

/-- The palette of a result is a palette in the gamut, encoded. -/
theorem exists_encoded (hctx : Surveyed ctx) {result : Result ℝ}
    (h : ctx.optimize draws = .ok (result, rest)) :
    ∃ palette, Fits ctx palette ∧ result.palette = palette.map encoded := by
  have hencoded {palette : List (Triple ℝ)} {colors : List (Triple ℤ)}
      (h : palette.mapM gammaOfLinearColor = .ok colors) : colors = palette.map encoded :=
    Except.ok.inj (h.symm.trans (gammaOfLinearColors_eq palette))
  by_cases hne : ctx.original = []
  · exact ⟨_, hctx.original, hencoded (unsearched_of_isEmpty hne h).1.palette⟩
  · obtain ⟨depth, run₀, -, hstart, -, ⟨-, hunsearched, -⟩ | ⟨-, run, hrun, hreports⟩⟩ :=
      optimize_eq_ok hne h
    · exact ⟨_, hctx.original, hencoded hunsearched.palette⟩
    · have hends := Run.ends_of_alternate (.start hstart) hrun
      exact ⟨_, fits_of_ends hctx hends, hencoded hreports.palette⟩

end Exact

open Exact

/-- A search of a palette in range stays in the gamut, whatever its settings and its draws are: all
palettes that it holds lie there, and a result has the colours of the palette, from 0 to 255. Checked
settings with a threshold that is not negative give a result. -/
theorem optimize_inGamut (palette : Palette ℝ) (d : Deficiency) (settings : Settings ℝ)
    (draws : Draws ℝ) (hpalette : palette.InRange) :
    ∃ ctx, Context.ofGamma palette d settings = .ok ctx ∧
      (∀ depth s, Run.Holds ctx depth draws s →
        (∀ c ∈ s.palette, InGamut c) ∧ ∀ c ∈ s.bestPalette, InGamut c) ∧
      (∀ depth run, Run.Reached ctx depth draws run → (∀ c ∈ run.bestPalette, InGamut c) ∧
        ∀ r, Run.searchPhase ctx run = .ok r → ∀ c ∈ r.bestPalette, InGamut c) ∧
      (∀ result rest, optimize palette d settings draws = .ok (result, rest) →
        result.palette.length = palette.length ∧
          ∀ c ∈ result.palette, ∀ k, c.get k ∈ Set.Icc (0 : ℤ) 255) ∧
      (settings.validate = .ok () → 0 ≤ settings.zeroDistanceThreshold →
        ∃ result rest, optimize palette d settings draws = .ok (result, rest)) := by
  obtain ⟨ctx, hctx, hsurveyed, hlinear, -, rfl⟩ := exists_surveyed_ofGamma hpalette d settings
  refine ⟨ctx, hctx, fun depth s hs => ?_, fun depth run hrun => ?_, fun result rest h => ?_,
    fun hsettings hthreshold => ?_⟩
  · obtain ⟨hfits, hbest⟩ := fits_of_holds hsurveyed hs
    exact ⟨hfits.gamut, hbest.gamut⟩
  · obtain ⟨hfits, hbest⟩ := fits_best_of_reached hsurveyed hrun
    exact ⟨hfits.gamut, fun r hr => (hbest r hr).gamut⟩
  · obtain ⟨_, hsettings, h⟩ := bind_eq_ok.1 h
    rw [hctx, ok_bind] at h
    obtain ⟨linear, hfits, hresult⟩ := exists_encoded hsurveyed h
    rw [hresult]
    constructor
    · rw [List.length_map, hfits.length]
      exact (mapM_eq_ok_iff.1 hlinear).length_eq.symm
    · exact hfits.encoded_mem
  · rw [optimize_eq hsettings hctx]
    have hregular := hsurveyed.regular fun _ _ _ _ _ => measurable_of_threshold hthreshold _
    exact exists_optimize_of_validate hregular hsettings draws

/-- With shakes that would leave the gamut by far if they were not confined to it. -/
theorem optimize_inGamut_greens :
    ∃ (ctx : Context ℝ) (settings : Settings ℝ) (draws rest : Draws ℝ) (depth : ℝ) (s : State ℝ)
      (result : Result ℝ),
      settings.validate = .ok () ∧ 0 ≤ settings.zeroDistanceThreshold ∧
      Palette.InRange [[0, 255, 0], [0, 255, 1]] ∧
      Context.ofGamma [[0, 255, 0], [0, 255, 1]] .red settings = .ok ctx ∧
      Run.Holds ctx depth draws s ∧ s.palette.length = 2 ∧ (∀ c ∈ s.palette, InGamut c) ∧
      optimize [[0, 255, 0], [0, 255, 1]] .red settings draws = .ok (result, rest) ∧
      result.palette.length = 2 ∧ ∀ c ∈ result.palette, ∀ k, c.get k ∈ Set.Icc (0 : ℤ) 255 := by
  let settings : Settings ℝ := { Settings.standard with
    shakeHueRange := -7, shakeFloor := -3, shakeSpan := 40 }
  let draws : Draws ℝ := .sequence (fun n => 1 / (n + 2)) 0
  have hsettings : settings.validate = .ok () :=
    validate_eq_ok_iff.2 (validate_eq_ok_iff.1 validate_standard)
  have hthreshold : 0 ≤ settings.zeroDistanceThreshold := standard_threshold_nonneg
  obtain ⟨ctx, hctx, hheld, -, hresults, hreturns⟩ :=
    optimize_inGamut _ .red settings draws Palette.inRange_greens
  obtain ⟨ctx', hctx', hregular, hlinear, -⟩ :=
    exists_ofGamma Palette.inRange_greens .red hthreshold
  obtain rfl := Except.ok.inj (hctx.symm.trans hctx')
  obtain ⟨run, hstart, -⟩ := exists_start hregular draws
  have hholds : Run.Holds ctx 0 draws run.sum := .sum (.start hstart) .prepared
  obtain ⟨result, rest, hresult⟩ := hreturns hsettings hthreshold
  obtain ⟨hlength, hrange⟩ := hresults result rest hresult
  have hsize : run.sum.palette.length = 2 := by
    rw [(Run.poised_of_start hstart).2.1]
    exact (mapM_eq_ok_iff.1 hlinear).length_eq.symm
  exact ⟨ctx, settings, draws, rest, 0, run.sum, result, hsettings, hthreshold,
    Palette.inRange_greens, hctx, hholds, hsize, (hheld 0 run.sum hholds).1, hresult, hlength,
    hrange⟩

end Dichromat

end
