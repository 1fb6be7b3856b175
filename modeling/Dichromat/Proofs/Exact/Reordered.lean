import Dichromat.Proofs.Exact.Input

/-!
# The order of the colours

What a candidate costs against an original palette only hangs on which original colour stands
beside which colour of the candidate (`candidateError_eq`). So the error is the same in any order
of these pairs (`candidateError_perm`).
-/

noncomputable section

namespace Dichromat

/-- The error of a candidate for a gamma-encoded palette, each colour beside the one it stands for. -/
def candidateError (pairs : List (List ℝ × Triple ℝ)) (d : Deficiency) (settings : Settings ℝ)
    (mode : Mode) : Calc ℝ := do
  let ctx ← Context.ofGamma (pairs.map Prod.fst) d settings
  paletteError ctx (pairs.map Prod.snd) mode

/-- A linear colour as normal vision has it, and its candidate as a dichromat sees it. -/
structure Sight where
  color : Triple ℝ
  original : Eye ℝ
  seen : Eye ℝ

namespace Sight

/-- What there is to be seen of a colour and its candidate. -/
structure Of (d : Deficiency) (pair : List ℝ × Triple ℝ) (x : Sight) : Prop where
  color : linearOfGammaColor pair.1 = .ok x.color
  original : Eye.ofLinear .perceived x.color = .ok x.original
  seen : d.project pair.2 = .ok x.seen

/-- The error of a pair of sights. -/
def cost (settings : Settings ℝ) (x y : Sight) : ℝ :=
  Exact.pairCost settings (Exact.apart x.seen y.seen) (Exact.apart x.original y.original)

/-- The error of each of the sights, one's own pair included. -/
def errors (settings : Settings ℝ) (xs : List Sight) : List ℝ :=
  xs.map fun x => (xs.map (x.cost settings)).sum

end Sight

namespace Exact

variable {settings : Settings ℝ} {d : Deficiency} {mode : Mode} {ctx : Context ℝ}
  {pairs pairs' : List (List ℝ × Triple ℝ)} {xs ys : List Sight}

/-! ### The errors of sights -/

/-- A colour costs nothing beside itself. -/
theorem cost_self (h₀ : 0 ≤ settings.zeroDistanceThreshold) (x : Sight) : x.cost settings x = 0 := by
  rw [Sight.cost, apart_self, apart_self]
  exact pairCost_of_near le_rfl h₀

theorem errorAt_sights (h₀ : 0 ≤ ctx.settings.zeroDistanceThreshold)
    (hd : ctx.distances = xs.map fun x => xs.map fun y => apart x.original y.original) {k : ℕ}
    (hk : k < xs.length) :
    errorAt ctx (xs.map Sight.seen) k (seenAt (xs.map Sight.seen) k) =
      (xs.map (xs[k].cost ctx.settings)).sum := by
  have hseen {l : ℕ} (hl : l < xs.length) : seenAt (xs.map Sight.seen) l = xs[l].seen := by
    apply seenAt_of_getElem?
    rw [List.getElem?_map, List.getElem?_eq_getElem hl, Option.map_some]
  have hcost {l : ℕ} (hl : l < xs.length) :
      Exact.cost ctx (xs.map Sight.seen) k (seenAt (xs.map Sight.seen) k) l =
        xs[k].cost ctx.settings xs[l] := by
    have hrow : ctx.distances[k]? = some (xs.map fun y => apart xs[k].original y.original) := by
      rw [hd, List.getElem?_map, List.getElem?_eq_getElem hk, Option.map_some]
    have horiginal : originalAt ctx k l = apart xs[k].original xs[l].original := by
      refine originalAt_of_getElem? hrow ?_
      rw [List.getElem?_map, List.getElem?_eq_getElem hl, Option.map_some]
    rw [Exact.cost, Sight.cost, hseen hk, hseen hl, horiginal]
  have hmap : (List.range xs.length).map
      (Exact.cost ctx (xs.map Sight.seen) k (seenAt (xs.map Sight.seen) k)) =
      xs.map (xs[k].cost ctx.settings) := by
    refine List.ext_getElem (by rw [List.length_map, List.length_map, List.length_range]) ?_
    intro l _ hl
    rw [List.length_map] at hl
    rw [List.getElem_map, List.getElem_map, List.getElem_range, hcost hl]
  -- the place that the program leaves out may be counted, so that no place is special
  rw [errorAt, List.length_map,
    Finset.sum_erase _ ((hcost hk).trans (cost_self h₀ xs[k])), ← sum_map_range, hmap]

theorem colorErrors_sights (h₀ : 0 ≤ ctx.settings.zeroDistanceThreshold) (hctx : ctx.Square)
    (hsize : ctx.size = xs.length)
    (hd : ctx.distances = xs.map fun x => xs.map fun y => apart x.original y.original)
    (hs : ∀ x ∈ xs, x.seen.space = .perceived) :
    colorErrors ctx (xs.map Sight.seen) = .ok (Sight.errors ctx.settings xs) := by
  have hm : Measures ctx (xs.map Sight.seen).length :=
    measures_of_square hctx ((List.length_map ..).trans hsize.symm).le
      fun _ _ _ _ _ => measurable_of_threshold h₀ _
  rw [colorErrors_eq hm (List.forall_mem_map.2 hs), List.length_map]
  refine congrArg Except.ok (List.ext_getElem ?_ fun k _ hk => ?_)
  · rw [List.length_map, List.length_range, Sight.errors, List.length_map]
  · rw [Sight.errors, List.length_map] at hk
    simp only [Sight.errors, List.getElem_map, List.getElem_range]
    exact errorAt_sights h₀ hd hk

/-! ### The error of a candidate -/

theorem exists_ofGamma_sights (settings : Settings ℝ) (h : List.Forall₂ (Sight.Of d) pairs xs) :
    ∃ ctx, Context.ofGamma (pairs.map Prod.fst) d settings = .ok ctx ∧ ctx.Square ∧
      ctx.size = xs.length ∧ ctx.deficiency = d ∧ ctx.settings = settings ∧
      ctx.distances = xs.map fun x => xs.map fun y => apart x.original y.original := by
  have hcolors : (pairs.map Prod.fst).mapM linearOfGammaColor = .ok (xs.map Sight.color) := by
    rw [mapM_eq_ok_iff, List.forall₂_map_left_iff, List.forall₂_map_right_iff]
    exact h.imp fun _ _ h => h.color
  have horiginals : List.Forall₂ (fun c e => Eye.ofLinear .perceived c = .ok e)
      (xs.map Sight.color) (xs.map Sight.original) := by
    rw [List.forall₂_map_left_iff, List.forall₂_map_right_iff, List.forall₂_same]
    intro x hx
    obtain ⟨_, -, hof⟩ := exists_left_of_mem h hx
    exact hof.original
  have hdistances := distanceMatrix_eq horiginals
  simp only [List.map_map, Function.comp_def] at hdistances
  have hctx : Context.ofLinear (xs.map Sight.color) d settings = .ok _ :=
    bind_eq_ok.2 ⟨_, hdistances, rfl⟩
  exact ⟨_, bind_eq_ok.2 ⟨_, hcolors, hctx⟩, square_of_ofLinear hctx, List.length_map .., rfl, rfl,
    rfl⟩

theorem exists_projectAll_sights (h : List.Forall₂ (Sight.Of d) pairs xs) : ∃ eyes q,
    (Projector.ofDeficiency d).projectAll (pairs.map Prod.snd) = .ok (eyes, q) ∧
      List.Forall₂ Eye.Agrees (xs.map Sight.seen) eyes := by
  have hseen : List.Forall₂ (fun c e => d.project c = .ok e)
      (pairs.map Prod.snd) (xs.map Sight.seen) := by
    rw [List.forall₂_map_left_iff, List.forall₂_map_right_iff]
    exact h.imp fun _ _ h => h.seen
  have hagrees (c : Triple ℝ) (a b : Eye ℝ) (ha : d.project c = .ok a) (hb : d.Sees c b) :
      a.Agrees b :=
    (Deficiency.sees_of_project ha).agrees hb
  obtain ⟨eyes, q, hall, -, hsees⟩ :=
    exists_projectAll (Projector.serves_ofDeficiency d) (pairs.map Prod.snd)
  exact ⟨eyes, q, hall, forall₂_of_common hagrees hseen hsees⟩

/-- The error of a candidate is that of its sights. -/
theorem candidateError_eq (h₀ : 0 ≤ settings.zeroDistanceThreshold)
    (h : List.Forall₂ (Sight.Of d) pairs xs) :
    candidateError pairs d settings mode = mode.aggregate (Sight.errors settings xs) := by
  obtain ⟨ctx, hctx, hsquare, hsize, rfl, rfl, hdistances⟩ := exists_ofGamma_sights settings h
  obtain ⟨eyes, q, hall, hagrees⟩ := exists_projectAll_sights h
  have hspace : ∀ x ∈ xs, x.seen.space = .perceived := by
    intro x hx
    obtain ⟨_, -, hof⟩ := exists_left_of_mem h hx
    exact (Deficiency.sees_of_project hof.seen).perceived
  have herrors := colorErrors_congr hagrees (colorErrors_sights h₀ hsquare hsize hdistances hspace)
  unfold candidateError
  rw [hctx, ok_bind, paletteError, hall, ok_bind]
  show (colorErrors ctx eyes >>= fun errors => mode.aggregate errors) = _
  rw [herrors, ok_bind]

/-- Where a candidate has an error there is something to be seen of every colour. -/
theorem exists_sights {e : ℝ} (h : candidateError pairs d settings mode = .ok e) :
    ∃ xs, List.Forall₂ (Sight.Of d) pairs xs := by
  obtain ⟨ctx, hctx, -⟩ := bind_eq_ok.1 h
  obtain ⟨colors, hcolors, hctx⟩ := bind_eq_ok.1 hctx
  obtain ⟨⟨rfl, -⟩, hrows⟩ := ofLinear_eq_ok.1 hctx
  obtain ⟨eyes, heyes, -⟩ := distanceMatrix_eq_ok hrows
  refine exists_forall₂ fun pair hpair => ?_
  obtain ⟨color, hmem, hcolor⟩ :=
    exists_right_of_mem (mapM_eq_ok_iff.1 hcolors) (List.mem_map_of_mem hpair)
  obtain ⟨original, -, horiginal⟩ := exists_right_of_mem heyes hmem
  obtain ⟨seen, hseen, -⟩ := project_ok d pair.2
  exact ⟨⟨color, original, seen⟩, hcolor, horiginal, hseen⟩

theorem exists_sights_of_inRange (h : Palette.InRange (pairs.map Prod.fst)) (d : Deficiency) :
    ∃ xs, List.Forall₂ (Sight.Of d) pairs xs := by
  obtain ⟨colors, hcolors, hgamut⟩ := exists_linearOfGammaColors h
  refine exists_forall₂ fun pair hpair => ?_
  obtain ⟨color, hmem, hcolor⟩ :=
    exists_right_of_mem (mapM_eq_ok_iff.1 hcolors) (List.mem_map_of_mem hpair)
  obtain ⟨seen, hseen, -⟩ := project_ok d pair.2
  exact ⟨⟨color, _, seen⟩, hcolor, ofLinear_eq (fun k => (hgamut color hmem k).1) .perceived, hseen⟩

/-! ### Other orders -/

theorem errors_perm (h : xs.Perm ys) : (Sight.errors settings xs).Perm (Sight.errors settings ys) := by
  have hsum : (fun x : Sight => (xs.map (x.cost settings)).sum) =
      fun x => (ys.map (x.cost settings)).sum :=
    funext fun x => (h.map (x.cost settings)).sum_eq
  rw [Sight.errors, Sight.errors, hsum]
  exact h.map _

theorem aggregate_perm {es es' : List ℝ} (h : es.Perm es') :
    mode.aggregate es = mode.aggregate es' := by
  cases mode with
  | sum => rw [aggregate_sum, aggregate_sum, h.sum_eq]
  | max =>
    rcases eq_or_ne es [] with rfl | hne
    · rw [List.nil_perm.1 h]
    · obtain ⟨m, hm⟩ := exists_aggregate .max es
      have hne' : es' ≠ [] := fun hnil => hne (List.perm_nil.1 (hnil ▸ h))
      obtain ⟨hmem, hle⟩ := (aggregate_max_eq_ok_iff hne).1 hm
      have hle' : ∀ e ∈ es', e ≤ m := fun e he => hle e (h.mem_iff.2 he)
      rw [hm, (aggregate_max_eq_ok_iff hne').2 ⟨h.mem_iff.1 hmem, hle'⟩]

/-- The error of a candidate is the same in any order of the colours. -/
theorem candidateError_perm (h₀ : 0 ≤ settings.zeroDistanceThreshold) (h : pairs.Perm pairs')
    (d : Deficiency) (mode : Mode) :
    (∀ e, candidateError pairs d settings mode = .ok e ↔
      candidateError pairs' d settings mode = .ok e) ∧
    (Palette.InRange (pairs.map Prod.fst) → ∃ e, candidateError pairs d settings mode = .ok e) := by
  have heq {pairs pairs' : List (List ℝ × Triple ℝ)} (h : pairs.Perm pairs') {xs : List Sight}
      (hxs : List.Forall₂ (Sight.Of d) pairs xs) :
      candidateError pairs d settings mode = candidateError pairs' d settings mode := by
    -- the sights of the reordered pairs are the reordered sights
    obtain ⟨ys, hys, hperm⟩ := List.perm_comp_forall₂ h.symm hxs
    rw [candidateError_eq h₀ hxs, candidateError_eq h₀ hys]
    exact aggregate_perm (errors_perm hperm.symm)
  refine ⟨fun e => ⟨fun he => ?_, fun he => ?_⟩, fun hrange => ?_⟩
  · obtain ⟨xs, hxs⟩ := exists_sights he
    exact (heq h hxs).symm.trans he
  · obtain ⟨xs, hxs⟩ := exists_sights he
    exact (heq h.symm hxs).symm.trans he
  · obtain ⟨xs, hxs⟩ := exists_sights_of_inRange hrange d
    rw [candidateError_eq h₀ hxs]
    exact exists_aggregate mode _

/-- Black in the place of green, and white in that of green with a little blue. -/
def forGreens : List (List ℝ × Triple ℝ) :=
  [([0, 255, 0], Triple.replicate 0), ([0, 255, 1], Triple.replicate 1)]

theorem candidateError_perm_greens : ∃ sum max : ℝ,
    0 ≤ (Settings.standard : Settings ℝ).zeroDistanceThreshold ∧
      forGreens.Perm forGreens.reverse ∧ Palette.InRange (forGreens.map Prod.fst) ∧
      candidateError forGreens .red Settings.standard .sum = .ok sum ∧
      candidateError forGreens.reverse .red Settings.standard .sum = .ok sum ∧
      candidateError forGreens .red Settings.standard .max = .ok max ∧
      candidateError forGreens.reverse .red Settings.standard .max = .ok max := by
  have hperm : forGreens.Perm forGreens.reverse := (List.reverse_perm _).symm
  have hrange : Palette.InRange (forGreens.map Prod.fst) := Palette.inRange_greens
  obtain ⟨hsum, hexists⟩ := candidateError_perm standard_threshold_nonneg hperm .red .sum
  obtain ⟨hmax, hexists'⟩ := candidateError_perm standard_threshold_nonneg hperm .red .max
  obtain ⟨sum, hs⟩ := hexists hrange
  obtain ⟨max, hm⟩ := hexists' hrange
  exact ⟨sum, max, standard_threshold_nonneg, hperm, hrange, hs, (hsum sum).1 hs, hm,
    (hmax max).1 hm⟩

end Exact

end Dichromat

end
