import Dichromat.Proofs.Run.Intact
import Dichromat.Proofs.Run.Returned
import Dichromat.Proofs.Run.Size

/-!
# Checked input

The checks accept palettes whose channels are real numbers from 0 to 255, and compare budgets, the
step and the penalty with 0 and 1, and nothing else. With settings whose numbers are real numbers
this is enough for a search in exact arithmetic to return a best error that is not above the initial
one, whatever the shakes are and whether budgets are whole numbers or not, if the draws are given or
have a seed of a kind that they can have, and no distance is divided by that is none
(`optimize_of_validate`). Seeds of other kinds, thresholds below 0 and budgets that are not a number
pass the checks too (`optimize_checked_fails`).
-/

noncomputable section

namespace Dichromat

/-! ### Seeds -/

/-- The kinds of values that are a seed. -/
def Value.IsSeed : Value → Prop
  | .null | .bool _ | .int _ | .float _ | .text _ => True
  | _ => False

theorem Draws.exists_ofSeed_iff {α : Type} {seed : Value} :
    (∃ draws : Draws α, Draws.ofSeed seed = .ok draws) ↔ seed.IsSeed := by
  cases seed with
  | null | bool | int | float | text => exact iff_of_true ⟨_, rfl⟩ trivial
  | complex | list | table | moment => exact iff_of_false nofun id

/-- Different places of the original palette have a distance. -/
def Context.Distinct (ctx : Context ℝ) : Prop :=
  ∀ k < ctx.size, ∀ l < ctx.size, l ≠ k → Exact.originalAt ctx k l ≠ 0

namespace Exact

variable {ctx : Context ℝ} {draws : Draws ℝ}

/-- No distance is divided by that is none where these count as none, or where there are no such
distances. -/
theorem Surveyed.regular_iff (hctx : Surveyed ctx) :
    Regular ctx ↔ 0 ≤ ctx.settings.zeroDistanceThreshold ∨ ctx.Distinct := by
  constructor
  · intro hregular
    by_contra hnot
    obtain ⟨hbelow, hsame⟩ := not_or.1 hnot
    simp only [Context.Distinct, not_forall, not_not] at hsame
    obtain ⟨k, hk, l, hl, hne, hzero⟩ := hsame
    obtain ⟨row, hrow, hmeasurable⟩ := hregular.measured k hk
    obtain ⟨original, horiginal, hpair⟩ := hmeasurable l hl hne
    rw [← originalAt_of_getElem? hrow horiginal, hzero] at hpair
    exact hpair.elim hbelow fun h => h rfl
  · intro h
    refine hctx.regular fun k hk l hl hne => ?_
    exact h.elim (fun hthreshold => measurable_of_threshold hthreshold _)
      fun hdistinct => .inr (hdistinct k hk l hl hne)

/-- A search with checked settings gives a result just if there are no colours or no distance is
divided by that is none. Then its best error is not above the initial one. -/
theorem exists_optimize_iff (hctx : Surveyed ctx) (hsettings : ctx.settings.validate = .ok ()) :
    ((∃ result rest, ctx.optimize draws = .ok (result, rest)) ↔ Regular ctx) ∧
      ∀ result rest, ctx.optimize draws = .ok (result, rest) →
        ∃ best, result.bestError = some best ∧ best ≤ result.initialError := by
  have hregular {result : Result ℝ} {rest : Draws ℝ}
      (h : ctx.optimize draws = .ok (result, rest)) : Regular ctx := by
    by_cases hne : ctx.original = []
    · refine hctx.regular fun k hk => absurd hk ?_
      rw [Context.size, hne]
      exact Nat.not_lt_zero k
    · obtain ⟨_, run₀, -, hstart, -⟩ := optimize_eq_ok hne h
      obtain ⟨sum, hsum, -⟩ := bind_eq_ok.1 hstart
      exact regular_of_prepare hctx (Projector.serves_ofDeficiency _) rfl hsum
  refine ⟨⟨?_, fun h => exists_optimize_of_validate h hsettings draws⟩, fun result rest h => ?_⟩
  · rintro ⟨_, _, h⟩
    exact hregular h
  · obtain ⟨result', rest', _, best, h', -, hencodes, -⟩ :=
      exists_encodes (hregular h) hsettings draws
    obtain ⟨rfl, rfl⟩ := Prod.mk.inj (Except.ok.inj (h.symm.trans h'))
    exact ⟨best, hencodes.bestError, hencodes.not_above⟩

end Exact

/-! ### Searches of checked input -/

section Checked

variable {palette name : Value} {colors : Palette Value} {d : Deficiency}
  {settings : Settings Value}

/-- The context of checked input. -/
theorem exists_context (hpalette : Palette.validate palette = .ok colors) (d : Deficiency)
    (hsettings : settings.validate = .ok ()) (hexact : settings.IsExact) :
    ∃ ctx, Context.ofGamma colors.exact d (settings.map Value.exact) = .ok ctx ∧
      Exact.Surveyed ctx ∧ colors.exact.mapM linearOfGammaColor = .ok ctx.original ∧
      ctx.settings = settings.map Value.exact ∧ ctx.settings.validate = .ok () := by
  obtain ⟨ctx, hctx, hsurveyed, hlinear, -, hsame⟩ := Exact.exists_surveyed_ofGamma
    (Palette.inRange_of_validate hpalette) d (settings.map Value.exact)
  exact ⟨ctx, hctx, hsurveyed, hlinear, hsame, hsame ▸ hexact.validate_iff.1 hsettings⟩

/-- A result of checked input is one of its context. -/
theorem optimizeBy_exact_eq_ok (hpalette : Palette.validate palette = .ok colors)
    (hname : Deficiency.ofValue name = .ok d) (hsettings : settings.validate = .ok ())
    {ctx : Context ℝ} (hctx : Context.ofGamma colors.exact d (settings.map Value.exact) = .ok ctx)
    {draws? : Option (Draws ℝ)} {result : Result ℝ} :
    optimizeBy Value.exact palette name settings draws? = .ok result ↔ ∃ draws rest,
      Draws.orSeed draws? settings.seed = .ok draws ∧ ctx.optimize draws = .ok (result, rest) := by
  rw [optimizeBy_eq_ok]
  constructor
  · rintro ⟨colors', d', ctx', draws, rest, hcolors', -, hd', hctx', hdraws, hresult⟩
    obtain rfl := Except.ok.inj (hpalette.symm.trans hcolors')
    obtain rfl := Except.ok.inj (hname.symm.trans hd')
    obtain rfl := Except.ok.inj (hctx.symm.trans hctx')
    exact ⟨draws, rest, hdraws, hresult⟩
  · rintro ⟨draws, rest, hdraws, hresult⟩
    exact ⟨colors, d, ctx, draws, rest, hpalette, hsettings, hname, hctx, hdraws, hresult⟩

/-- With a seed, and with distances of none that count as none, checked input gives a result. -/
theorem exists_optimizeBy_exact (hpalette : Palette.validate palette = .ok colors)
    (hname : Deficiency.ofValue name = .ok d) (hsettings : settings.validate = .ok ())
    (hexact : settings.IsExact) (hseed : settings.seed.IsSeed)
    (hthreshold : 0 ≤ settings.zeroDistanceThreshold.exact) :
    ∃ result, optimizeBy Value.exact palette name settings none = .ok result := by
  obtain ⟨ctx, hctx, hsurveyed, -, hsame, hvalid⟩ := exists_context hpalette d hsettings hexact
  have hregular : Exact.Regular ctx := hsurveyed.regular_iff.2 (.inl (hsame ▸ hthreshold))
  obtain ⟨draws, hdraws⟩ := Draws.exists_ofSeed_iff.2 hseed
  obtain ⟨result, rest, hresult⟩ := (Exact.exists_optimize_iff hsurveyed hvalid).1.2 hregular
  exact ⟨result, (optimizeBy_exact_eq_ok hpalette hname hsettings hctx).2
    ⟨draws, rest, hdraws, hresult⟩⟩

/-- Without a deficiency, colours of whole channels come back as they are. -/
theorem exists_optimizeBy_none {rows : List (List ℤ)}
    (hrows : ∀ row ∈ rows, row.length = 3 ∧ ∀ n ∈ row, 0 ≤ n ∧ n ≤ 255)
    (hsettings : settings.validate = .ok ()) (hexact : settings.IsExact)
    (hseed : settings.seed.IsSeed) (hthreshold : 0 ≤ settings.zeroDistanceThreshold.exact) :
    ∃ result, optimizeBy Value.exact (.list (rows.map fun row => .list (row.map .int)))
        (.text "none") settings none = .ok result ∧
      result.palette.map Triple.toList = rows := by
  have hpalette := Palette.validate_int hrows
  have hname : Deficiency.ofValue (.text "none") = .ok .none := by decide
  have hrange := Palette.inRange_of_validate hpalette
  have hcounts : 0 ≤ (settings.map Value.exact).zeroDistanceThreshold := hthreshold
  obtain ⟨ctx, hctx, hregular, hlinear, hd, hsame⟩ := Exact.exists_ofGamma hrange .none hcounts
  have hvalid : ctx.settings.validate = .ok () := hsame ▸ hexact.validate_iff.1 hsettings
  have hzero := Exact.paletteError_original_eq_zero hregular (.inl hd)
  obtain ⟨draws, hdraws⟩ := Draws.exists_ofSeed_iff.2 hseed
  have hresult := Exact.optimize_of_paletteError_zero hregular hvalid hzero draws
  refine ⟨_, (optimizeBy_exact_eq_ok hpalette hname hsettings hctx).2
    ⟨draws, _, hdraws, hresult⟩, ?_⟩
  rw [Exact.map_toList_encoded hrange hlinear, Palette.exact_int, Exact.map_nearestEven_intCast]

end Checked

/-! ### Standard settings -/

/-- The numbers of the standard settings are real numbers. -/
theorem Settings.isExact_standard : (Settings.standard : Settings Value).IsExact :=
  ⟨trivial, trivial, trivial, ⟨_, rfl⟩, ⟨_, rfl⟩, ⟨_, rfl⟩, ⟨_, rfl⟩, ⟨_, rfl⟩, ⟨_, rfl⟩⟩

theorem Settings.validate_standard : (Settings.standard : Settings Value).validate = .ok () := rfl

/-- The standard threshold is above 0. -/
theorem Settings.threshold_standard :
    0 ≤ (Settings.standard : Settings Value).zeroDistanceThreshold.exact := by
  have hle : Value.le (.int 0) (Settings.standard : Settings Value).zeroDistanceThreshold =
      .ok true := rfl
  rw [isExact_standard.zeroDistanceThreshold.int_le] at hle
  exact_mod_cast of_decide_eq_true (Except.ok.inj hle)

/-! ### Greens -/

theorem Deficiency.ofValue_red : Deficiency.ofValue (.text "red") = .ok .red := by decide

end Dichromat

end
