import Dichromat.Proofs.Run.Course

/-!
# As many colours as there were

No step of a search adds a colour to its palette or takes one away, so neither does a run: what it
returns has one colour for each of the original palette, in whatever arithmetic it is computed
(`length_of_optimizeBy`).
-/

namespace Dichromat

variable {α : Type} [ColorArith α] {ctx : Context α} {n : ℕ}

/-! ### Phases -/

namespace State

open Update

variable {s t : State α} {draws rest : Draws α}

/-- A state whose working palette and best palette have so many colours. -/
structure Sized (n : ℕ) (s : State α) : Prop where
  palette : s.palette.length = n
  bestPalette : s.bestPalette.length = n

theorem keeps_length_recolor (c : Choice α) :
    (recolor c).Keeps fun s => s.palette.length := by
  unfold recolor
  refine Keeps.bind (keeps_modify fun s => List.length_set) fun _ => ?_
  refine Keeps.bind keeps_get fun s => ?_
  split
  · refine Keeps.bind keeps_get fun s => Keeps.bind (keeps_liftM _) fun projector => ?_
    exact Keeps.bind (keeps_liftM _) fun eye => keeps_modify fun _ => rfl
  · exact keeps_throw _

theorem keeps_length_tabuStep : (tabuStep ctx).Keeps fun s => s.palette.length := by
  unfold tabuStep applyChoice
  refine Keeps.bind keeps_get fun s => ?_
  split
  · exact keeps_pure _
  · refine Keeps.bind (keeps_liftM _) fun tried => ?_
    refine Keeps.bind (keeps_modify fun _ => rfl) fun _ => ?_
    refine Keeps.bind (keeps_liftM _) fun best => Keeps.bind (keeps_length_recolor _) fun _ => ?_
    exact Keeps.bind (keeps_renewErrors (fun _ _ => rfl) _) fun _ =>
      keeps_remember (fun _ _ _ => rfl) _

/-- An iteration may take the working palette for the best one, which has as many colours. -/
theorem Sized.iterate (hs : s.Sized n) (h : (State.iterate ctx).apply s = .ok t) : t.Sized n := by
  obtain ⟨r, u, ⟨_, -, hr⟩, hu, rfl⟩ := iterate_eq_ok.1 h
  have hsized : r.Sized n := by
    rcases hr with ⟨-, _, -, rfl⟩ | ⟨-, rfl⟩
    · exact ⟨hs.palette, hs.palette⟩
    · exact hs
  have hstanding := (keeps_tabuStep overlooks_standing).apply hu
  simp only [standing, Prod.mk.injEq] at hstanding
  exact ⟨(keeps_length_tabuStep.apply hu).trans hsized.palette,
    hstanding.2.2 ▸ hsized.bestPalette⟩

theorem Sized.iterated (hs : s.Sized n) (h : Iterated ctx s t) : t.Sized n := by
  induction h with
  | first => exact hs
  | next _ _ hu ih => exact ih.iterate hu

theorem Sized.exploreTabu (hs : s.Sized n) (h : (State.exploreTabu ctx).apply s = .ok t) :
    t.Sized n := by
  obtain ⟨u, hu, -, rfl⟩ := iterated_of_exploreTabu h
  have hopened : s.opened.Sized n := ⟨hs.palette, hs.bestPalette⟩
  exact ⟨(hopened.iterated hu).palette, (hopened.iterated hu).bestPalette⟩

theorem length_of_shakeColors {places : List ℕ} {a : PUnit}
    (h : (places.forM (shakeColor ctx)).runOn (s, draws) = (.ok a, t, rest)) :
    t.palette.length = s.palette.length := by
  induction places generalizing s draws with
  | nil =>
    obtain ⟨-, h⟩ := Prod.mk.inj h
    rw [(Prod.mk.inj h).1]
  | cons place places ih =>
    obtain ⟨⟨r, draws'⟩, hshake, hrest⟩ := runOn_forM_cons_eq_ok.1 h
    rw [ih hrest]
    rcases runOn_shakeColor_eq_ok.1 hshake with ⟨-, rfl, -⟩ | ⟨_, _, _, _, -, -, -, -, rfl, -⟩
    · rfl
    · exact List.length_set

/-- A shake takes the palette that it has shaken for the best one. -/
theorem Sized.exploreShake (hs : s.Sized n)
    (h : (State.exploreShake ctx).apply (s, draws) = .ok (t, rest)) : t.Sized n := by
  rw [apply_eq_ok] at h
  unfold State.exploreShake at h
  simp only [runOn_bind_eq_ok, runOn_onState, runOn_get, runOn_modify, Prod.mk.injEq,
    Except.ok.injEq] at h
  obtain ⟨_, _, ⟨-, rfl⟩, _, _, ⟨rfl, rfl⟩, _, ⟨r, draws'⟩, hshake, hlast⟩ := h
  have hlength := (length_of_shakeColors hshake).trans hs.palette
  rw [runOn_onState, Prod.mk.injEq, Prod.mk.injEq] at hlast
  obtain ⟨houtcome, ht, -⟩ := hlast
  have hrun : _ = ((Except.ok () : Except Fault Unit), t) := Prod.ext houtcome ht
  simp only [runOn_bind_eq_ok, runOn_modify, runOn_totalError_false_eq_ok, runOn_measure_eq_ok,
    Prod.mk.injEq] at hrun
  obtain ⟨_, _, ⟨-, rfl⟩, _, _, ⟨⟨_, _, _, -, -, rfl⟩, -⟩, -, rfl⟩ := hrun
  exact ⟨hlength, hlength⟩

/-- Exploring a state keeps the number of its colours. -/
theorem Sized.explore (hs : s.Sized n)
    (h : (State.explore ctx).apply (s, draws) = .ok (t, rest)) : t.Sized n := by
  obtain ⟨-, ⟨-, h⟩ | ⟨-, h, -⟩⟩ := explore_eq_ok.1 h
  · exact hs.exploreShake h
  · exact hs.exploreTabu h

theorem sized_of_prepare {source : List (Triple α)} {spent : α} (hsource : source.length = n)
    (h : (prepare ctx source spent).apply s = .ok t) : t.Sized n := by
  obtain ⟨_, _, _, _, _, _, -, -, -, -, -, rfl⟩ := prepare_eq_ok.1 h
  exact ⟨hsource, hsource⟩

end State

/-! ### Runs -/

namespace Run

variable {run r : Run α} {depth : α} {draws : Draws α}

/-- A run whose Sum state and best palette have so many colours. -/
structure Sized (n : ℕ) (run : Run α) : Prop where
  sum : run.sum.Sized n
  bestPalette : run.bestPalette.length = n

theorem sized_of_explorePhase {s t : State α} {draws rest : Draws α} {record : PhaseRecord α}
    (hs : s.Sized n) (h : explorePhase ctx s draws = .ok (t, rest, record)) : t.Sized n :=
  hs.explore (explorePhase_eq_ok.1 h).1

theorem sized_of_start (h : start ctx draws = .ok run) : run.Sized ctx.size := by
  unfold start at h
  obtain ⟨sum, hsum, h⟩ := bind_eq_ok.1 h
  obtain rfl := pure_eq_ok.1 h
  exact ⟨State.sized_of_prepare rfl hsum, rfl⟩

theorem Sized.searched (hrun : run.Sized n) (h : searchPhase ctx run = .ok r) : r.Sized n := by
  obtain ⟨sum, draws, record, hphase, ⟨-, rfl⟩ | ⟨-, rfl⟩⟩ := searchPhase_eq_ok.1 h
  · have hsum := sized_of_explorePhase hrun.sum hphase
    exact ⟨hsum, hsum.bestPalette⟩
  · exact ⟨sized_of_explorePhase hrun.sum hphase, hrun.bestPalette⟩

/-- A disturbance starts from a best palette, and the next Sum phase from the one that it finds. -/
theorem Sized.disturbed (hrun : run.Sized n) (h : disturb ctx run = .ok r) : r.Sized n := by
  obtain ⟨prepared, disturbed, draws, record, sum, hprepared, hphase, hsum, rfl⟩ :=
    disturb_eq_ok.1 h
  have hsource :
      (if run.disturbedByMax then run.bestPalette else run.sum.bestPalette).length = n := by
    split_ifs
    exacts [hrun.bestPalette, hrun.sum.bestPalette]
  rw [disturber_eq] at hprepared
  have hdisturbed := sized_of_explorePhase (State.sized_of_prepare hsource hprepared) hphase
  exact ⟨State.sized_of_prepare hdisturbed.bestPalette hsum, hrun.bestPalette⟩

theorem sized_of_reached (h : Reached ctx depth draws run) : run.Sized ctx.size := by
  induction h with
  | start h => exact sized_of_start h
  | next _ _ hr _ ht ih => exact (ih.searched hr).disturbed ht

theorem sized_of_ends (h : Ends ctx depth draws r) : r.Sized ctx.size := by
  cases h with
  | before h _ => exact sized_of_reached h
  | after h _ hr _ => exact (sized_of_reached h).searched hr

end Run

/-! ### Results -/

theorem length_of_optimize {draws rest : Draws α} {result : Result α}
    (h : ctx.optimize draws = .ok (result, rest)) : result.palette.length = ctx.size := by
  by_cases hne : ctx.original = []
  · exact (mapM_eq_ok_iff.1 (unsearched_of_isEmpty hne h).1.palette).length_eq.symm
  obtain ⟨depth, run₀, -, hstart, -, ⟨-, hunsearched, -⟩ | ⟨-, run, hrun, hreports⟩⟩ :=
    optimize_eq_ok hne h
  · exact (mapM_eq_ok_iff.1 hunsearched.palette).length_eq.symm
  · rw [← (mapM_eq_ok_iff.1 hreports.palette).length_eq]
    exact (Run.sized_of_ends (Run.ends_of_alternate (.start hstart) hrun)).bestPalette

theorem size_of_ofGamma {palette : Palette α} {d : Deficiency} {settings : Settings α}
    (h : Context.ofGamma palette d settings = .ok ctx) : ctx.size = palette.length := by
  obtain ⟨original, horiginal, h⟩ := bind_eq_ok.1 h
  obtain ⟨distances, -, h⟩ := bind_eq_ok.1 h
  obtain rfl := pure_eq_ok.1 h
  exact (mapM_eq_ok_iff.1 horiginal).length_eq.symm

/-- What a result of checked input comes from. -/
theorem optimizeBy_eq_ok {read : Value → α} {palette name : Value} {settings : Settings Value}
    {draws? : Option (Draws α)} {result : Result α} :
    optimizeBy read palette name settings draws? = .ok result ↔ ∃ colors d ctx draws rest,
      Palette.validate palette = .ok colors ∧ settings.validate = .ok () ∧
      Deficiency.ofValue name = .ok d ∧
      Context.ofGamma (colors.map fun color => color.map read) d (settings.map read) = .ok ctx ∧
      Draws.orSeed draws? settings.seed = .ok draws ∧ ctx.optimize draws = .ok (result, rest) := by
  unfold optimizeBy
  constructor
  · intro h
    obtain ⟨colors, hcolors, h⟩ := bind_eq_ok.1 h
    obtain ⟨⟨⟩, hsettings, h⟩ := bind_eq_ok.1 h
    obtain ⟨d, hd, h⟩ := bind_eq_ok.1 h
    obtain ⟨ctx, hctx, h⟩ := bind_eq_ok.1 h
    obtain ⟨draws, hdraws, h⟩ := bind_eq_ok.1 h
    obtain ⟨⟨result', rest⟩, hresult, h⟩ := bind_eq_ok.1 h
    obtain rfl := pure_eq_ok.1 h
    exact ⟨colors, d, ctx, draws, rest, hcolors, hsettings, hd, hctx, hdraws, hresult⟩
  · rintro ⟨colors, d, ctx, draws, rest, hcolors, hsettings, hd, hctx, hdraws, hresult⟩
    simp only [hcolors, hsettings, hd, hctx, hdraws, hresult, ok_bind]
    rfl

/-- The palette that is returned has one colour for each that was given. -/
theorem length_of_optimizeBy {read : Value → α} {colors : List Value} {name : Value}
    {settings : Settings Value} {draws? : Option (Draws α)} {result : Result α}
    (h : optimizeBy read (.list colors) name settings draws? = .ok result) :
    result.palette.length = colors.length := by
  obtain ⟨palette, d, ctx, draws, rest, hpalette, -, -, hctx, -, hresult⟩ := optimizeBy_eq_ok.1 h
  rw [length_of_optimize hresult, size_of_ofGamma hctx, List.length_map]
  obtain ⟨elements, helements, hvalidate⟩ := bind_eq_ok.1 hpalette
  obtain rfl := Except.ok.inj helements
  rw [← (mapM_eq_ok_iff.1 hvalidate).length_eq, List.length_zipIdx]

end Dichromat
