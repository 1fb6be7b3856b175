import Dichromat.Proofs.Exact.Alike
import Dichromat.Proofs.Exact.Pair

/-!
# Palettes without an error

No error is negative and none cancels another, so that the Sum and the Max error of a palette vanish
together: where every pair that counts is seen at least as far apart as it is
(`paletteError_eq_zero_iff`).
-/

noncomputable section

namespace Dichromat

namespace Exact

variable {ctx : Context ℝ} {xs : List (Eye ℝ)} {eye : Eye ℝ} {es : List ℝ} {k : ℕ}

/-! ### Pairs that keep apart -/

/-- No pair whose original distance counts is seen closer than it is. -/
def KeepsApart (ctx : Context ℝ) (eyes : List (Eye ℝ)) : Prop :=
  ∀ (k l : ℕ) (a b : Eye ℝ), eyes[k]? = some a → eyes[l]? = some b → l ≠ k →
    ∃ row original projected, ctx.row k = .ok row ∧ row[l]? = some original ∧
      a.distance b = .ok projected ∧
      (original ≤ ctx.settings.zeroDistanceThreshold ∨ original ≤ projected)

theorem keepsApart_iff (hm : Measures ctx xs.length) (hs : ∀ e ∈ xs, e.space = .perceived) :
    KeepsApart ctx xs ↔ ∀ k < xs.length, ∀ l < xs.length, l ≠ k →
      originalAt ctx k l ≤ ctx.settings.zeroDistanceThreshold ∨
        originalAt ctx k l ≤ apart (seenAt xs k) (seenAt xs l) := by
  have hspace {k : ℕ} {a : Eye ℝ} (ha : xs[k]? = some a) : a.space = .perceived :=
    hs a (List.mem_of_getElem? ha)
  constructor
  · intro h k hk l hl hne
    have ha := getElem?_seenAt hk
    have hb := getElem?_seenAt hl
    obtain ⟨row, original, projected, hrow, ho, hd, hapart⟩ := h k l _ _ ha hb hne
    rw [distance_eq (hspace ha) (hspace hb)] at hd
    rwa [originalAt_of_getElem? (row_eq_ok hrow) ho, Except.ok.inj hd]
  · intro h k l a b ha hb hne
    obtain ⟨hk, -⟩ := List.getElem?_eq_some_iff.1 ha
    obtain ⟨hl, -⟩ := List.getElem?_eq_some_iff.1 hb
    obtain ⟨row, hrow, hpairs⟩ := hm k hk
    obtain ⟨original, ho, -⟩ := hpairs l hl hne
    have hapart := h k hk l hl hne
    rw [originalAt_of_getElem? hrow ho, seenAt_of_getElem? ha, seenAt_of_getElem? hb] at hapart
    exact ⟨row, original, _, row_of_nat hrow, ho, distance_eq (hspace ha) (hspace hb), hapart⟩

/-! ### Errors that vanish -/

/-- A colour has no error just if no pair of it costs anything. -/
theorem errorAt_eq_zero_iff (h₀ : 0 ≤ ctx.settings.zeroDistanceThreshold)
    (hpenalty : 0 < ctx.settings.collapsePenalty) :
    errorAt ctx xs k eye = 0 ↔ ∀ l < xs.length, l ≠ k →
      originalAt ctx k l ≤ ctx.settings.zeroDistanceThreshold ∨
        originalAt ctx k l ≤ apart eye (seenAt xs l) := by
  rw [errorAt, Finset.sum_eq_zero_iff_of_nonneg fun _ _ => cost_nonneg hpenalty.le]
  simp only [Finset.mem_erase, Finset.mem_range, cost,
    pairCost_eq_zero_iff h₀ hpenalty (apart_nonneg _ _)]
  exact ⟨fun h l hl hne => h l ⟨hne, hl⟩, fun h l hl => h l hl.2 hl.1⟩

theorem sum_eq_zero_iff_forall (h : ∀ e ∈ es, 0 ≤ e) : es.sum = 0 ↔ ∀ e ∈ es, e = 0 := by
  induction es with
  | nil => exact iff_of_true rfl nofun
  | cons e es ih =>
    rw [List.forall_mem_cons] at h
    rw [List.sum_cons, add_eq_zero_iff_of_nonneg h.1 (List.sum_nonneg h.2), ih h.2,
      List.forall_mem_cons]

/-- Either way to add up errors gives none just if there are none. -/
theorem aggregate_eq_zero_iff (hne : es ≠ []) (h : ∀ e ∈ es, 0 ≤ e) {mode : Mode} {error : ℝ}
    (herror : mode.aggregate es = .ok error) : error = 0 ↔ ∀ e ∈ es, e = 0 := by
  cases mode with
  | sum =>
    rw [aggregate_sum] at herror
    rw [← Except.ok.inj herror]
    exact sum_eq_zero_iff_forall h
  | max =>
    obtain ⟨hmem, hle⟩ := (aggregate_max_eq_ok_iff hne).1 herror
    constructor
    · rintro rfl e he
      exact (hle e he).antisymm (h e he)
    · intro hzero
      exact hzero error hmem

/-- No error of a palette is negative, and both the Sum and the Max of them vanish just if no pair
is seen closer than it is. -/
theorem paletteError_eq_zero_iff {palette : List (Triple ℝ)} (hctx : ctx.Square)
    (h₀ : 0 ≤ ctx.settings.zeroDistanceThreshold) (hpenalty : 0 < ctx.settings.collapsePenalty)
    (hne : palette ≠ []) (hlength : palette.length ≤ ctx.size) :
    ∃ eyes q errors sum max,
      (Projector.ofDeficiency ctx.deficiency).projectAll palette = .ok (eyes, q) ∧
      colorErrors ctx eyes = .ok errors ∧ (∀ e ∈ errors, 0 ≤ e) ∧
      paletteError ctx palette .sum = .ok sum ∧ paletteError ctx palette .max = .ok max ∧
      (sum = 0 ↔ KeepsApart ctx eyes) ∧ (max = 0 ↔ KeepsApart ctx eyes) := by
  obtain ⟨eyes, q, hall, -, hsees⟩ :=
    exists_projectAll (Projector.serves_ofDeficiency ctx.deficiency) palette
  have hspace := Deficiency.perceived_of_sees hsees
  have hm : Measures ctx eyes.length :=
    measures_of_square hctx (hsees.length_eq.symm.trans_le hlength)
      fun _ _ _ _ _ => measurable_of_threshold h₀ _
  have hes := colorErrors_eq hm hspace
  set errors := (List.range eyes.length).map fun k => errorAt ctx eyes k (seenAt eyes k)
  have hnonneg : ∀ e ∈ errors, 0 ≤ e :=
    List.forall_mem_map.2 fun _ _ => errorAt_nonneg hpenalty.le
  have herrors : errors ≠ [] := by
    intro hnil
    rw [List.map_eq_nil_iff, List.range_eq_nil, ← hsees.length_eq, List.length_eq_zero_iff] at hnil
    exact hne hnil
  -- what both ways to add up come down to
  have hzero : (∀ e ∈ errors, e = 0) ↔ KeepsApart ctx eyes := by
    rw [keepsApart_iff hm hspace, List.forall_mem_map]
    simp only [List.mem_range, errorAt_eq_zero_iff h₀ hpenalty]
  have hmode (mode : Mode) : ∃ error, paletteError ctx palette mode = .ok error ∧
      (error = 0 ↔ KeepsApart ctx eyes) := by
    obtain ⟨error, herror⟩ := exists_aggregate mode errors
    refine ⟨error, ?_, (aggregate_eq_zero_iff herrors hnonneg herror).trans hzero⟩
    rw [paletteError, hall, ok_bind]
    exact bind_eq_ok.2 ⟨errors, hes, herror⟩
  obtain ⟨sum, hsum, hsum'⟩ := hmode .sum
  obtain ⟨max, hmax, hmax'⟩ := hmode .max
  exact ⟨eyes, q, errors, sum, max, hall, hes, hnonneg, hsum, hmax, hsum', hmax'⟩

/-- Black and white without a deficiency keep apart, as their Sum error vanishes; so their Max error
vanishes, too. -/
theorem paletteError_eq_zero_iff_black_white : ∃ (ctx : Context ℝ) (eyes : List (Eye ℝ))
    (q : Projector ℝ),
    Context.ofLinear [Triple.replicate 0, Triple.replicate 1] .none Settings.standard = .ok ctx ∧
      ctx.Square ∧ 0 ≤ ctx.settings.zeroDistanceThreshold ∧ 0 < ctx.settings.collapsePenalty ∧
      ctx.original ≠ [] ∧ ctx.original.length ≤ ctx.size ∧
      (Projector.ofDeficiency ctx.deficiency).projectAll ctx.original = .ok (eyes, q) ∧
      KeepsApart ctx eyes ∧ paletteError ctx ctx.original .sum = .ok 0 ∧
      paletteError ctx ctx.original .max = .ok 0 := by
  have hzero : (0 : ℝ) ∈ Set.Icc (0 : ℝ) 1 := Set.left_mem_Icc.2 zero_le_one
  obtain ⟨ctx, -, hctx, -, hregular, ho, hd, hset, -⟩ :=
    exists_prepare_greys standard_threshold_nonneg hzero hzero
  have hsquare := square_of_ofLinear hctx
  have h₀ : 0 ≤ ctx.settings.zeroDistanceThreshold := hset ▸ standard_threshold_nonneg
  have hpenalty : 0 < ctx.settings.collapsePenalty := hset ▸ standard_penalty_pos
  have hne : ctx.original ≠ [] := ho ▸ List.cons_ne_nil _ _
  obtain ⟨eyes, q, errors, sum, max, hall, -, -, hsum, hmax, hsum', hmax'⟩ :=
    paletteError_eq_zero_iff hsquare h₀ hpenalty hne le_rfl
  have hnone := paletteError_of_none hregular hd
  have hapart : KeepsApart ctx eyes := hsum'.1 (Except.ok.inj (hsum.symm.trans hnone))
  rw [hmax'.2 hapart] at hmax
  exact ⟨ctx, eyes, q, hctx, hsquare, h₀, hpenalty, hne, le_rfl, hall, hapart, hnone, hmax⟩

end Exact

end Dichromat

end
