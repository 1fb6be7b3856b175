import Dichromat.Optimizer
import Dichromat.Proofs.Exact.Encode
import Dichromat.Proofs.Exact.Phase
import Dichromat.Proofs.Exact.Value

/-!
# Checked input, in exact arithmetic

The palettes that pass the check are those whose colours are three real numbers from 0 to 255
(`Palette.validate_eq_ok_iff_inRange`), and the settings that pass it have positive budgets
(`validate_eq_ok_iff`), before and after they are read as real numbers
(`Settings.IsExact.validate_iff`). A palette in range has a regular context (`exists_ofGamma`).
-/

noncomputable section

namespace Dichromat

/-! ### Checked palettes -/

/-- Colours of three channels from 0 to 255. -/
def Palette.InRange (palette : Palette ℝ) : Prop :=
  ∀ color ∈ palette, color.length = 3 ∧ ∀ x ∈ color, 0 ≤ x ∧ x ≤ 255

/-- The colours of values, read as real numbers. -/
def Palette.exact (colors : Palette Value) : Palette ℝ :=
  colors.map fun color => color.map Value.exact

theorem Palette.validateChannel_eq_ok_iff {color : ℕ} {v : Value} {a : Unit} :
    Palette.validateChannel color v = .ok a ↔
      (v.isReal = true ∧ v.IsExact) ∧ 0 ≤ v.exact ∧ v.exact ≤ 255 := by
  unfold Palette.validateChannel
  constructor
  · intro h
    have hreal : v.isReal = true := by
      by_contra hnot
      rw [if_neg hnot] at h
      exact nomatch h
    rw [if_pos hreal] at h
    obtain ⟨low, hlow, h⟩ := bind_eq_ok.1 h
    cases low with
    | false => exact nomatch h
    | true =>
      obtain ⟨fits, hhigh, h⟩ := bind_eq_ok.1 h
      cases fits with
      | false => exact nomatch h
      | true =>
        have hexact := Value.isExact_of_between hreal hlow hhigh
        rw [hexact.int_le, Except.ok.injEq, decide_eq_true_eq, Int.cast_zero] at hlow
        rw [hexact.le_int, Except.ok.injEq, decide_eq_true_eq] at hhigh
        exact ⟨⟨hreal, hexact⟩, hlow, mod_cast hhigh⟩
  · rintro ⟨⟨hreal, hexact⟩, hlow, hhigh⟩
    have hhigh' : v.exact ≤ (255 : ℤ) := mod_cast hhigh
    simp only [hreal, if_true, hexact.int_le, hexact.le_int, Int.cast_zero, hlow, hhigh', ok_bind,
      decide_true]
    rfl

theorem Palette.validateColor_eq_ok_iff {color : ℕ} {value : Value} {channels : List Value} :
    Palette.validateColor color value = .ok channels ↔ value.elements = .ok channels ∧
      channels.length = 3 ∧
      ∀ v ∈ channels, (v.isReal = true ∧ v.IsExact) ∧ 0 ≤ v.exact ∧ v.exact ≤ 255 := by
  unfold Palette.validateColor
  rw [bind_eq_ok]
  constructor
  · rintro ⟨items, hitems, h⟩
    by_cases hlength : items.length = 3
    · rw [if_pos hlength] at h
      obtain ⟨_, hchannels, h⟩ := bind_eq_ok.1 h
      obtain rfl := pure_eq_ok.1 h
      refine ⟨hitems, hlength, fun v hv => ?_⟩
      exact Palette.validateChannel_eq_ok_iff.1 (forM_eq_ok_iff.1 hchannels v hv)
    · rw [if_neg hlength] at h
      exact nomatch h
  · rintro ⟨helements, hlength, hchannels⟩
    refine ⟨channels, helements, ?_⟩
    rw [if_pos hlength]
    exact bind_eq_ok.2 ⟨(), forM_eq_ok_iff.2 fun v hv =>
      Palette.validateChannel_eq_ok_iff.2 (hchannels v hv), rfl⟩

/-- The check of a palette is that its colours, read as real numbers, have their channels in
range. -/
theorem Palette.validate_eq_ok_iff_inRange {palette : Value} {colors : Palette Value} :
    Palette.validate palette = .ok colors ↔ ∃ rows, palette.elements = .ok rows ∧
      List.Forall₂ (fun row color => row.elements = .ok color) rows colors ∧
      (∀ color ∈ colors, ∀ v ∈ color, v.isReal = true ∧ v.IsExact) ∧ colors.exact.InRange := by
  have hrange : (∀ color ∈ colors, ∀ v ∈ color, v.isReal = true ∧ v.IsExact) ∧
      colors.exact.InRange ↔ ∀ color ∈ colors, color.length = 3 ∧
        ∀ v ∈ color, (v.isReal = true ∧ v.IsExact) ∧ 0 ≤ v.exact ∧ v.exact ≤ 255 := by
    simp only [Palette.exact, Palette.InRange, List.forall_mem_map, List.length_map]
    exact ⟨fun ⟨hreal, h⟩ color hcolor => ⟨(h color hcolor).1, fun v hv =>
        ⟨hreal color hcolor v hv, (h color hcolor).2 v hv⟩⟩,
      fun h => ⟨fun color hcolor v hv => ((h color hcolor).2 v hv).1,
        fun color hcolor => ⟨(h color hcolor).1, fun v hv => ((h color hcolor).2 v hv).2⟩⟩⟩
  unfold Palette.validate
  rw [bind_eq_ok]
  refine exists_congr fun rows => and_congr_right fun _ => ?_
  have hplaces : rows = rows.zipIdx.map Prod.fst := (List.zipIdx_map_fst 0 rows).symm
  rw [mapM_eq_ok_iff, hrange]
  conv_rhs => rw [hplaces, List.forall₂_map_left_iff]
  constructor
  · intro h
    have hcolors := h.imp fun _ _ hcolor => Palette.validateColor_eq_ok_iff.1 hcolor
    refine ⟨hcolors.imp fun _ _ hcolor => hcolor.1, fun color hmem => ?_⟩
    obtain ⟨_, -, hcolor⟩ := exists_left_of_mem hcolors hmem
    exact hcolor.2
  · rintro ⟨helements, hcolors⟩
    rw [List.forall₂_iff_zip] at helements ⊢
    refine ⟨helements.1, fun {row color} hmem => Palette.validateColor_eq_ok_iff.2 ?_⟩
    exact ⟨helements.2 hmem, hcolors color (List.of_mem_zip hmem).2⟩

theorem Palette.inRange_of_validate {palette : Value} {colors : Palette Value}
    (h : Palette.validate palette = .ok colors) : colors.exact.InRange :=
  (Palette.validate_eq_ok_iff_inRange.1 h).elim fun _ hrows => hrows.2.2.2

theorem Palette.exact_int (rows : List (List ℤ)) :
    Palette.exact (rows.map fun row => row.map .int) =
      rows.map fun row => row.map (Int.cast : ℤ → ℝ) := by
  rw [Palette.exact, List.map_map]
  exact List.map_congr_left fun _ _ => List.map_map

/-- Whole channels in range are accepted. -/
theorem Palette.validate_int {rows : List (List ℤ)}
    (h : ∀ row ∈ rows, row.length = 3 ∧ ∀ n ∈ row, 0 ≤ n ∧ n ≤ 255) :
    Palette.validate (.list (rows.map fun row => .list (row.map .int))) =
      .ok (rows.map fun row => row.map .int) := by
  refine Palette.validate_eq_ok_iff_inRange.2 ⟨_, rfl, ?_, ?_, ?_⟩
  · rw [List.forall₂_map_left_iff, List.forall₂_map_right_iff]
    exact List.forall₂_same.2 fun _ _ => rfl
  · simp only [List.forall_mem_map]
    exact fun _ _ _ _ => ⟨rfl, trivial⟩
  · rw [Palette.exact_int]
    simp only [Palette.InRange, List.forall_mem_map, List.length_map]
    exact fun row hrow => ⟨(h row hrow).1, fun n hn => by exact_mod_cast (h row hrow).2 n hn⟩

/-- Green, and green with a little blue. -/
theorem Palette.inRange_greens : Palette.InRange [[0, 255, 0], [0, 255, 1]] := by
  intro color hcolor
  rcases List.mem_pair.1 hcolor with rfl | rfl <;> simp

namespace Exact

/-! ### Settings -/

/-- A number whose order with whole numbers is that of a real number. -/
structure OrderedAs {α : Type} [Arith α] (x : α) (r : ℝ) : Prop where
  lt : ∀ n : ℤ, Comparable.lt (Arith.whole n) x = .ok (decide ((n : ℝ) < r))
  le : ∀ n : ℤ, Comparable.le x (Arith.whole n) = .ok (decide (r ≤ n))

theorem orderedAs_self (x : ℝ) : OrderedAs x x :=
  ⟨fun n => lt_eq (n : ℝ) x, fun n => le_eq x (n : ℝ)⟩

theorem orderedAs_exact {v : Value} (hv : v.IsExact) : OrderedAs v v.exact :=
  ⟨hv.int_lt, hv.le_int⟩

section Checks

variable {α : Type} [Arith α]

theorem requirePositive_eq_ok_iff {fault : String → Fault} {x : α} {r : ℝ} (hx : OrderedAs x r)
    {a : Unit} : Settings.requirePositive fault x = .ok a ↔ 0 < r := by
  simp only [Settings.requirePositive, hx.le, Int.cast_zero, ok_bind, decide_eq_true_eq]
  by_cases h : r ≤ 0
  · rw [if_pos h]
    refine iff_of_false ?_ (not_lt.2 h)
    cases Arith.shown x <;> exact nofun
  · rw [if_neg h]
    exact iff_of_true rfl (not_le.1 h)

theorem validate_eq_ok_iff_of_orderedAs {s : Settings α} {e : α → ℝ}
    (hdepth : OrderedAs s.depthPerColor (e s.depthPerColor))
    (hstalling : OrderedAs s.stallingPeriod (e s.stallingPeriod))
    (hduration : OrderedAs s.maxModeDuration (e s.maxModeDuration))
    (hstep : OrderedAs s.step (e s.step))
    (hpenalty : OrderedAs s.collapsePenalty (e s.collapsePenalty)) : s.validate = .ok () ↔
      0 < e s.depthPerColor ∧ 0 < e s.stallingPeriod ∧ 0 < e s.maxModeDuration ∧
        (0 < e s.step ∧ e s.step ≤ 1) ∧ 0 < e s.collapsePenalty := by
  unfold Settings.validate
  simp only [bind_eq_ok, requirePositive_eq_ok_iff hdepth, requirePositive_eq_ok_iff hstalling,
    requirePositive_eq_ok_iff hduration, exists_and_left]
  refine and_congr_right fun _ => and_congr_right fun _ => and_congr_right fun _ => ?_
  simp only [exists_const, hstep.lt, hstep.le, Int.cast_zero, Int.cast_one, Except.ok.injEq,
    exists_eq_left', decide_eq_true_eq, ok_bind]
  by_cases hpos : 0 < e s.step
  · by_cases hle : e s.step ≤ 1
    · simp [hpos, hle, requirePositive_eq_ok_iff hpenalty]
    · simp only [hpos, hle, if_true, if_false, and_false, false_and, iff_false]
      cases Arith.shown s.step <;> exact nofun
  · simp only [hpos, if_false, false_and, iff_false]
    cases Arith.shown s.step <;> exact nofun

end Checks

theorem validate_eq_ok_iff {settings : Settings ℝ} : settings.validate = .ok () ↔
    0 < settings.depthPerColor ∧ 0 < settings.stallingPeriod ∧ 0 < settings.maxModeDuration ∧
      (0 < settings.step ∧ settings.step ≤ 1) ∧ 0 < settings.collapsePenalty :=
  @validate_eq_ok_iff_of_orderedAs _ _ settings id (orderedAs_self _) (orderedAs_self _)
    (orderedAs_self _) (orderedAs_self _) (orderedAs_self _)

end Exact

/-! ### Settings of any shape -/

namespace Settings

/-- Settings whose numbers are real numbers. -/
structure IsExact (s : Settings Value) : Prop where
  depthPerColor : s.depthPerColor.IsExact
  stallingPeriod : s.stallingPeriod.IsExact
  maxModeDuration : s.maxModeDuration.IsExact
  step : s.step.IsExact
  collapsePenalty : s.collapsePenalty.IsExact
  zeroDistanceThreshold : s.zeroDistanceThreshold.IsExact
  shakeHueRange : s.shakeHueRange.IsExact
  shakeFloor : s.shakeFloor.IsExact
  shakeSpan : s.shakeSpan.IsExact

/-- Such settings pass the check just if they do as the real numbers that they are. -/
theorem IsExact.validate_iff {s : Settings Value} (h : s.IsExact) :
    s.validate = .ok () ↔ (s.map Value.exact).validate = .ok () := by
  rw [Exact.validate_eq_ok_iff]
  exact Exact.validate_eq_ok_iff_of_orderedAs (Exact.orderedAs_exact h.depthPerColor)
    (Exact.orderedAs_exact h.stallingPeriod) (Exact.orderedAs_exact h.maxModeDuration)
    (Exact.orderedAs_exact h.step) (Exact.orderedAs_exact h.collapsePenalty)

end Settings

namespace Exact

theorem funded_of_validate {ctx : Context ℝ} (h : ctx.settings.validate = .ok ())
    (hne : ctx.original ≠ []) : Funded ctx := by
  obtain ⟨hdepth, hstalling, -⟩ := validate_eq_ok_iff.1 h
  exact ⟨List.length_pos_of_ne_nil hne, hdepth, hstalling⟩

theorem validate_standard : (Settings.standard : Settings ℝ).validate = .ok () := by
  refine validate_eq_ok_iff.2 ⟨?_, ?_, ?_, ⟨?_, ?_⟩, standard_penalty_pos⟩ <;>
    norm_num [Settings.standard]

/-! ### Palettes -/

theorem exists_linearOfGammaColor {color : List ℝ}
    (h : color.length = 3 ∧ ∀ x ∈ color, 0 ≤ x ∧ x ≤ 255) :
    ∃ c, linearOfGammaColor color = .ok c ∧ InGamut c := by
  obtain ⟨hlength, hrange⟩ := h
  obtain ⟨r, g, b, rfl⟩ := List.length_eq_three.1 hlength
  have hgamut : ∀ x ∈ [r, g, b], (x / 255) ^ model.gamma ∈ Set.Icc (0 : ℝ) 1 :=
    fun x hx => linearChannel_mem (hrange x hx)
  refine ⟨_, linearOfGammaColor_eq (hrange r (by simp)).1 (hrange g (by simp)).1
    (hrange b (by simp)).1, fun k => ?_⟩
  cases k
  · exact hgamut r (by simp)
  · exact hgamut g (by simp)
  · exact hgamut b (by simp)

theorem exists_linearOfGammaColors {palette : Palette ℝ} (h : palette.InRange) :
    ∃ colors, palette.mapM linearOfGammaColor = .ok colors ∧ ∀ c ∈ colors, InGamut c := by
  have hcolor : ∀ color ∈ palette, ∃ c, linearOfGammaColor color = .ok c ∧ InGamut c :=
    fun color hc => exists_linearOfGammaColor (h color hc)
  obtain ⟨colors, hcolors⟩ := mapM_ok fun color hc => (hcolor color hc).imp fun _ h => h.1
  refine ⟨colors, hcolors, fun c hc => ?_⟩
  obtain ⟨color, hmem, hc⟩ := exists_left_of_mem (mapM_eq_ok_iff.1 hcolors) hc
  obtain ⟨c', hc', hgamut⟩ := hcolor color hmem
  rwa [Except.ok.inj (hc.symm.trans hc')]

/-- A palette in range has a context. -/
theorem exists_surveyed_ofGamma {palette : Palette ℝ} (h : palette.InRange) (d : Deficiency)
    (settings : Settings ℝ) :
    ∃ ctx, Context.ofGamma palette d settings = .ok ctx ∧ Surveyed ctx ∧
      palette.mapM linearOfGammaColor = .ok ctx.original ∧ ctx.deficiency = d ∧
      ctx.settings = settings := by
  obtain ⟨colors, hcolors, hgamut⟩ := exists_linearOfGammaColors h
  obtain ⟨ctx, hctx, hsurveyed, horiginal, hd, hsettings⟩ := exists_surveyed hgamut d settings
  exact ⟨ctx, bind_eq_ok.2 ⟨colors, hcolors, hctx⟩, hsurveyed, horiginal ▸ hcolors, hd, hsettings⟩

/-- The context is regular where no distance is divided by that is none. -/
theorem exists_ofGamma {palette : Palette ℝ} (h : palette.InRange) (d : Deficiency)
    {settings : Settings ℝ} (hthreshold : 0 ≤ settings.zeroDistanceThreshold) :
    ∃ ctx, Context.ofGamma palette d settings = .ok ctx ∧ Regular ctx ∧
      palette.mapM linearOfGammaColor = .ok ctx.original ∧ ctx.deficiency = d ∧
      ctx.settings = settings := by
  obtain ⟨ctx, hctx, hsurveyed, horiginal, hd, rfl⟩ := exists_surveyed_ofGamma h d settings
  exact ⟨ctx, hctx, hsurveyed.regular fun _ _ _ _ _ => measurable_of_threshold hthreshold _,
    horiginal, hd, rfl⟩

end Exact

end Dichromat

end
