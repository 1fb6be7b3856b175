import Dichromat.Proofs.Run.Optimum

/-!
# Palettes that need no change

Where the original palette has no error the run ends before its first phase
(`optimize_of_paletteError_zero`): the palette that is returned is the original one, each channel
rounded, and nothing is drawn. That is so without a deficiency, for a single colour, and where all
original distances count as none (`optimize_intact`).
-/

noncomputable section

namespace Dichromat

/-- All original distances are small enough to count as none. -/
def Context.Near (ctx : Context ℝ) : Prop :=
  ∀ (k l : ℕ) (row : List ℝ) (original : ℝ), l ≠ k → ctx.distances[k]? = some row →
    row[l]? = some original → original ≤ ctx.settings.zeroDistanceThreshold

namespace Exact

variable {ctx : Context ℝ}

/-! ### No errors -/

theorem originalAt_le_of_near (hctx : Regular ctx) (h : ctx.Near) {k l : ℕ} (hk : k < ctx.size)
    (hl : l < ctx.size) (hne : l ≠ k) :
    originalAt ctx k l ≤ ctx.settings.zeroDistanceThreshold := by
  obtain ⟨row, hrow, hpairs⟩ := hctx.measured k hk
  obtain ⟨original, horiginal, -⟩ := hpairs l hl hne
  rw [originalAt_of_getElem? hrow horiginal]
  exact h k l row original hne hrow horiginal

theorem paletteError_original_eq_zero (hctx : Regular ctx)
    (h : ctx.deficiency = .none ∨ ctx.size ≤ 1 ∨ ctx.Near) :
    paletteError ctx ctx.original .sum = .ok 0 := by
  rcases h with hd | hsize | hnear
  · exact paletteError_of_none hctx hd
  · refine paletteError_of_near hctx hctx.original fun k hk l hl hne => ?_
    omega
  · exact paletteError_of_near hctx hctx.original fun k hk l hl hne =>
      originalAt_le_of_near hctx hnear hk hl hne

/-- Without errors to lower nothing is searched and nothing drawn. -/
theorem optimize_of_paletteError_zero (hctx : Regular ctx)
    (hsettings : ctx.settings.validate = .ok ())
    (hzero : paletteError ctx ctx.original .sum = .ok 0) (draws : Draws ℝ) :
    ctx.optimize draws = .ok
      ({ palette := ctx.original.map encoded, initialError := 0, bestError := some 0
         iterations := 0, bestIteration := 0, phases := [], history := [] }, draws) := by
  obtain ⟨result, rest, h⟩ := exists_optimize_of_validate hctx hsettings draws
  have hinitial : result.initialError = 0 ∧ result.Unsearched ctx ∧ rest = draws := by
    by_cases hne : ctx.original = []
    · obtain ⟨result', h', hunsearched, hdecimal⟩ := optimize_of_isEmpty draws hne
      obtain ⟨rfl, rfl⟩ := Prod.mk.inj (Except.ok.inj (h'.symm.trans h))
      exact ⟨hdecimal.trans decimal_zero, hunsearched, rfl⟩
    · have hinitial : result.initialError = 0 :=
        Except.ok.inj ((paletteError_original hne h).symm.trans hzero)
      obtain ⟨-, -, -, -, -, ⟨-, hunsearched⟩ | ⟨hpositive, -⟩⟩ := optimize_eq_ok hne h
      · exact ⟨hinitial, hunsearched⟩
      · rw [hinitial, le_eq, whole_eq, Int.cast_zero, decide_eq_true le_rfl] at hpositive
        exact nomatch hpositive
  obtain ⟨hinitial, hunsearched, rfl⟩ := hinitial
  have hpalette : result.palette = ctx.original.map encoded :=
    Except.ok.inj (hunsearched.palette.symm.trans (gammaOfLinearColors_eq _))
  rw [h]
  rcases result with ⟨palette, initialError, bestError, iterations, bestIteration, phases, history⟩
  obtain rfl := hinitial
  obtain rfl := hpalette
  obtain ⟨-, hbest, rfl, rfl, rfl, rfl⟩ := hunsearched
  obtain rfl : bestError = some 0 := hbest
  rfl

/-! ### Rounded palettes -/

/-- Encoding rounds every channel of a palette that was decoded. -/
theorem map_toList_encoded {palette : Palette ℝ} (hpalette : palette.InRange)
    {colors : List (Triple ℝ)} (h : palette.mapM linearOfGammaColor = .ok colors) :
    (colors.map encoded).map Triple.toList = palette.map fun color => color.map nearestEven := by
  have hrows := (List.forall₂_and_left _ _).2 ⟨hpalette, mapM_eq_ok_iff.1 h⟩
  rw [List.map_map, eq_comm, ← List.forall₂_eq_eq_eq, List.forall₂_map_left_iff,
    List.forall₂_map_right_iff]
  exact hrows.imp fun color c hc => (toList_encoded hc.1 hc.2).symm

end Exact

open Exact

/-- A palette without a deficiency, of a single colour or of colours whose distances all count as
none is returned as it is, with every channel rounded to the nearest whole number, and nothing is
searched or drawn. -/
theorem optimize_intact (palette : Palette ℝ) (d : Deficiency) (settings : Settings ℝ)
    (hpalette : palette.InRange) (hsettings : settings.validate = .ok ())
    (hthreshold : 0 ≤ settings.zeroDistanceThreshold)
    (h : d = .none ∨ palette.length ≤ 1 ∨
      ∀ ctx, Context.ofGamma palette d settings = .ok ctx → ctx.Near) :
    ∃ result : Result ℝ, (∀ draws, optimize palette d settings draws = .ok (result, draws)) ∧
      result.palette.map Triple.toList = (palette.map fun color => color.map nearestEven) ∧
      (∀ rows : List (List ℤ), palette = (rows.map fun row => row.map (Int.cast : ℤ → ℝ)) →
        result.palette.map Triple.toList = rows) ∧
      result.initialError = 0 ∧ result.bestError = some 0 ∧ result.iterations = 0 ∧
      result.bestIteration = 0 ∧ result.phases = [] ∧ result.history = [] := by
  obtain ⟨ctx, hctx, hregular, hlinear, rfl, rfl⟩ := exists_ofGamma hpalette d hthreshold
  have hsize : palette.length = ctx.size := (mapM_eq_ok_iff.1 hlinear).length_eq
  have hzero := paletteError_original_eq_zero hregular
    (h.imp_right (Or.imp (hsize ▸ ·) fun hnear => hnear ctx hctx))
  have hrounded := map_toList_encoded hpalette hlinear
  refine ⟨_, fun draws => (optimize_eq hsettings hctx draws).trans
    (optimize_of_paletteError_zero hregular hsettings hzero draws), hrounded, fun rows hrows => ?_,
    rfl, rfl, rfl, rfl, rfl, rfl⟩
  rw [hrounded, hrows, map_nearestEven_intCast]

/-- Two greens for an eye without a deficiency, and a green between whole numbers for a red-blind
one. -/
theorem optimize_intact_greens :
    Palette.InRange [[0, 255, 0], [0, 255, 1]] ∧ Palette.InRange [[0, 254.5, 0.25]] ∧
      (Settings.standard : Settings ℝ).validate = .ok () ∧
      0 ≤ (Settings.standard : Settings ℝ).zeroDistanceThreshold ∧
      (∃ result : Result ℝ, (∀ draws, optimize [[0, 255, 0], [0, 255, 1]] .none Settings.standard
          draws = .ok (result, draws)) ∧
        result.palette.map Triple.toList = [[0, 255, 0], [0, 255, 1]] ∧
        result.initialError = 0 ∧ result.phases = []) ∧
      ∃ result : Result ℝ, (∀ draws, optimize [[0, 254.5, 0.25]] .red Settings.standard
          draws = .ok (result, draws)) ∧
        result.palette.map Triple.toList = [[0, 254, 0]] ∧
        result.initialError = 0 ∧ result.phases = [] := by
  have hsingle : Palette.InRange [[0, 254.5, 0.25]] := by
    intro color hcolor
    obtain rfl := List.mem_singleton.1 hcolor
    norm_num
  have hhalf : nearestEven 254.5 = 254 := by
    have hfloor : ⌊(254.5 : ℝ)⌋ = 254 := Int.floor_eq_iff.2 (by norm_num)
    rw [nearestEven, Int.fract, hfloor]
    norm_num
  have hquarter : nearestEven 0.25 = 0 := nearestEven_of_abs_sub_lt (by norm_num [abs_lt])
  have hzero : nearestEven 0 = 0 := by exact_mod_cast nearestEven_intCast 0
  obtain ⟨result, hall, -, hwhole, hinitial, -, -, -, hphases, -⟩ :=
    optimize_intact _ .none Settings.standard Palette.inRange_greens validate_standard
      standard_threshold_nonneg (Or.inl rfl)
  obtain ⟨single, hall', hrounded, -, hinitial', -, -, -, hphases', -⟩ :=
    optimize_intact _ .red Settings.standard hsingle validate_standard standard_threshold_nonneg
      (Or.inr (Or.inl le_rfl))
  refine ⟨Palette.inRange_greens, hsingle, validate_standard, standard_threshold_nonneg,
    ⟨result, hall, hwhole _ (by simp), hinitial, hphases⟩,
    ⟨single, hall', ?_, hinitial', hphases'⟩⟩
  rw [hrounded, List.map_singleton, List.map_cons, List.map_cons, List.map_singleton, hzero, hhalf,
    hquarter]

end Dichromat

end
