import Dichromat.Proofs.Run.Course
import Dichromat.Proofs.Run.History
import Dichromat.Proofs.Search.Coherence

/-!
# The best palette of a run

The best error of a run and its best palette are set in one step, from a Sum phase that has held the
palette with just this error (`Run.Searched`). Disturbances touch neither, so they never part
(`Run.Traced`). A result keeps the best (`Result.KeepsBest`) where the errors that the run meets are
in order and every step of a Sum phase has a move (`Run.Orderly`, `keepsBest_of_optimize`).
-/

namespace Dichromat

variable {α : Type} [ColorArith α] {ctx : Context α} {draws : Draws α} {depth e e₀ : α}

namespace Run

variable {run r t : Run α}

/-! ### The errors after Sum phases -/

/-- The best errors of the Sum phases. -/
def sumErrors (phases : List (PhaseRecord α)) : List (Option α) :=
  (phases.filter fun record => record.strategy = .tabuSum).map PhaseRecord.errorAfter

omit [ColorArith α] in
theorem sumErrors_append_of_sum {phases : List (PhaseRecord α)} {record : PhaseRecord α}
    (h : record.strategy = .tabuSum) :
    sumErrors (phases ++ [record]) = sumErrors phases ++ [record.errorAfter] := by
  simp [sumErrors, h]

omit [ColorArith α] in
theorem sumErrors_append_of_ne {phases : List (PhaseRecord α)} {record : PhaseRecord α}
    (h : record.strategy ≠ .tabuSum) : sumErrors (phases ++ [record]) = sumErrors phases := by
  simp [sumErrors, h]

/-- Errors in order, and steps with a move, in all Sum phases of a run. -/
structure Orderly (ctx : Context α) (draws : Draws α) : Prop where
  errors : Ordered fun e => ∃ s, Visits ctx draws s ∧ Mode.sum.aggregate s.errors = .ok e
  hasMove : ∀ s, Visits ctx draws s → State.mayGoOn s = .ok true → s.HasMove ctx

/-! ### Before a Sum phase -/

/-- What holds of a run before a Sum phase: its state is freshly prepared. -/
structure Poised (ctx : Context α) (run : Run α) : Prop where
  sum : ∃ s source spent, s.projector.Serves ctx.deficiency ∧ s.strategy = .tabuSum ∧
    (State.prepare ctx source spent).apply s = .ok run.sum
  max : run.max.strategy = .tabuMax
  shaker : run.shaker.strategy = .shake

namespace Poised

variable (hp : Poised ctx run)

include hp

theorem coherent : run.sum.Coherent ctx := by
  obtain ⟨s, source, spent, hserves, -, hs⟩ := hp.sum
  exact State.coherent_of_prepare hserves hs

theorem fresh : run.sum.strategy = .tabuSum ∧ run.sum.phase = .prepared ∧
    run.sum.bestPalette = run.sum.palette ∧
    ∃ e, run.sum.bestError = some e ∧ Mode.sum.aggregate run.sum.errors = .ok e := by
  obtain ⟨s, source, spent, -, hstrategy, hs⟩ := hp.sum
  obtain ⟨budget, eyes, q, es, error, limit, -, -, -, he, -, hrun⟩ := State.prepare_eq_ok.1 hs
  rw [hrun]
  rw [hstrategy] at he
  exact ⟨hstrategy, rfl, rfl, error, rfl, he⟩

theorem opened_coherent : run.sum.opened.Coherent ctx := hp.coherent.of_eq rfl

end Poised

/-- The state of a first Sum phase holds the original palette. -/
theorem poised_of_start (h : start ctx draws = .ok run) : Poised ctx run ∧
    run.sum.palette = ctx.original ∧ run.bestPalette = ctx.original ∧ run.bestError = none ∧
    run.phases = [] ∧ run.history = [] ∧ run.spent = 0 := by
  unfold start at h
  obtain ⟨sum, hs, h⟩ := bind_eq_ok.1 h
  obtain rfl := pure_eq_ok.1 h
  refine ⟨⟨⟨_, _, _, Projector.serves_ofDeficiency _, rfl, hs⟩, rfl, rfl⟩, ?_, rfl, rfl, rfl, rfl,
    rfl⟩
  obtain ⟨budget, eyes, q, es, error, limit, -, -, -, -, -, hrun⟩ := State.prepare_eq_ok.1 hs
  exact congrArg State.palette hrun

/-! ### A Sum phase -/

/-- What a Sum phase does to a run: it ends with the error `e` of a state `v` that it has visited,
and the run takes both over or neither. -/
structure Searched (ctx : Context α) (draws : Draws α) (run r : Run α) (v : State α) (e : α) :
    Prop where
  visits : Visits ctx draws v
  error : Mode.sum.aggregate v.errors = .ok e
  paletteError : paletteError ctx v.palette .sum = .ok e
  le_first : ∀ e₀, run.sum.bestError = some e₀ → e = e₀ ∨ Comparable.lt e e₀ = .ok true
  errors : sumErrors r.phases = sumErrors run.phases ++ [some e]
  history : r.history = run.history ++ [r.bestError]
  best : (isBelow e run.bestError = .ok true ∧ r.bestError = some e ∧ r.bestPalette = v.palette) ∨
    (isBelow e run.bestError = .ok false ∧ r.bestError = run.bestError ∧
      r.bestPalette = run.bestPalette)

/-- What a Sum phase leaves to the next disturbance. -/
structure Searchable (ctx : Context α) (run : Run α) : Prop where
  projector : run.sum.projector.Serves ctx.deficiency
  sum : run.sum.strategy = .tabuSum
  max : run.max.strategy = .tabuMax
  shaker : run.shaker.strategy = .shake

section SumPhase

variable (ho : Orderly ctx draws) (hdepth : ctx.searchDepth = .ok depth)
  (hrun : Reached ctx depth draws run)
  (hgo : Comparable.lt (Arith.whole run.spent) depth = .ok true) (hp : Poised ctx run) {u : State α}
  (hu : State.Iterated ctx run.sum.opened u)

include hdepth hrun hgo hu in
theorem visits_of_iterated : Visits ctx draws u := ⟨depth, run, hdepth, hrun, hgo, hu⟩

include ho hdepth hrun hgo hp

include hu in
theorem coherent_of_iterated : u.Coherent ctx :=
  hp.opened_coherent.iterated
    (fun _ hv => ho.hasMove _ (visits_of_iterated hdepth hrun hgo hv)) hu

include hu in
/-- The best palette of a Sum phase is one that the phase has held, with the best error. -/
theorem exists_best : u.strategy = .tabuSum ∧ ∃ v e, State.Iterated ctx run.sum.opened v ∧
    v.palette = u.bestPalette ∧ u.bestError = some e ∧ Mode.sum.aggregate v.errors = .ok e ∧
      ∀ e₀, run.sum.bestError = some e₀ → e = e₀ ∨ Comparable.lt e e₀ = .ok true := by
  obtain ⟨hstrategy, -, hpalette, e₀, he₀, hagg⟩ := hp.fresh
  have hmode : run.sum.opened.strategy.mode = .sum := congrArg Strategy.mode hstrategy
  have hP : Ordered (State.Meets ctx run.sum.opened) := by
    refine ho.errors.mono ?_
    rintro e ⟨v, hv, he⟩
    exact ⟨v, visits_of_iterated hdepth hrun hgo hv, hmode ▸ he⟩
  obtain ⟨hu, v, e, hv, hvpalette, hbest, he, hle⟩ :=
    State.bestHeld_of_iterated hP hpalette he₀ (hmode.symm ▸ hagg) hu
  refine ⟨hu.trans hstrategy, v, e, hv, hvpalette, hbest, hmode ▸ he, fun e₁ he₁ => ?_⟩
  obtain rfl := Option.some.inj (he₀.symm.trans he₁)
  exact hle

theorem exists_searched (hr : searchPhase ctx run = .ok r) :
    (∃ v e, Searched ctx draws run r v e) ∧ Searchable ctx r := by
  obtain ⟨u, hu, hsum, hmax, hshaker, ⟨record, hphases, hstrategy, hafter⟩, hhistory, hbest⟩ :=
    ended_of_searchPhase (hp.fresh.1.trans_ne nofun) hr
  obtain ⟨hu', v, e, hv, hvpalette, huerror, he, hle⟩ := exists_best ho hdepth hrun hgo hp hu
  have hvisits := visits_of_iterated hdepth hrun hgo hv
  have hpaletteError :=
    ((coherent_of_iterated ho hdepth hrun hgo hp hv).paletteError_eq .sum).trans he
  have herrors : sumErrors r.phases = sumErrors run.phases ++ [some e] := by
    rw [hphases, sumErrors_append_of_sum (hstrategy.trans hu'), hafter, huerror]
  refine ⟨⟨v, e, hvisits, he, hpaletteError, hle, herrors, hhistory, ?_⟩, ?_⟩
  · rwa [huerror, ← hvpalette] at hbest
  · have hucoherent := coherent_of_iterated ho hdepth hrun hgo hp hu
    exact ⟨hsum ▸ hucoherent.projector, hsum ▸ hu', hmax ▸ hp.max, hshaker ▸ hp.shaker⟩

end SumPhase

/-! ### A disturbance -/

/-- What a disturbance does to a run: it prepares the next Sum phase and adds a record of another
strategy. -/
theorem poised_of_disturb (hr : Searchable ctx r) (h : disturb ctx r = .ok t) : Poised ctx t ∧
    (sumErrors t.phases, t.history, t.bestError, t.bestPalette) =
      (sumErrors r.phases, r.history, r.bestError, r.bestPalette) := by
  obtain ⟨prepared, disturbed, draws', record, sum, hprepared, hphase, hsum, rfl⟩ :=
    disturb_eq_ok.1 h
  obtain ⟨hexplore, rfl⟩ := explorePhase_eq_ok.1 hphase
  rw [disturber_eq] at hprepared
  have hstrategy : disturbed.strategy = (if r.disturbedByMax then r.shaker else r.max).strategy :=
    (State.keeps_explore.apply hexplore).trans (State.strategy_of_prepare hprepared)
  cases hby : r.disturbedByMax with
  | true =>
    rw [hby, if_pos rfl, hr.shaker] at hstrategy
    exact ⟨⟨⟨r.sum, _, _, hr.projector, hr.sum, hsum⟩, hr.max, hstrategy⟩,
      congrArg (·, _) (sumErrors_append_of_ne (hstrategy.trans_ne nofun))⟩
  | false =>
    rw [hby, if_neg Bool.false_ne_true, hr.max] at hstrategy
    exact ⟨⟨⟨r.sum, _, _, hr.projector, hr.sum, hsum⟩, hstrategy, hr.shaker⟩,
      congrArg (·, _) (sumErrors_append_of_ne (hstrategy.trans_ne nofun))⟩

/-! ### Whole runs -/

/-- The history tracks the errors of the Sum phases, the first of which is not above `e₀`, and the
best palette is one that the run has visited, with the best error as its error. -/
structure Traced (ctx : Context α) (draws : Draws α) (e₀ : α) (run : Run α) : Prop where
  tracks : Tracks (sumErrors run.phases) run.history run.bestError
  met : ∀ e, some e ∈ sumErrors run.phases →
    ∃ s, Visits ctx draws s ∧ Mode.sum.aggregate s.errors = .ok e
  first : ∃ e, some e ∈ sumErrors run.phases ∧ (e = e₀ ∨ Comparable.lt e e₀ = .ok true)
  palette : ∃ s e, Visits ctx draws s ∧ s.palette = run.bestPalette ∧ Stands run.bestError e ∧
    paletteError ctx s.palette .sum = .ok e

theorem Searched.updates {v : State α} (h : Searched ctx draws run r v e) :
    Updates run.bestError e r.bestError := by
  rcases h.best with ⟨hb, he, -⟩ | ⟨hb, he, -⟩
  · rw [he]
    exact .better hb
  · rw [he]
    exact .kept hb

theorem Searched.tracks {v : State α} (h : Searched ctx draws run r v e)
    (ht : Tracks (sumErrors run.phases) run.history run.bestError) :
    Tracks (sumErrors r.phases) r.history r.bestError := by
  rw [h.errors, h.history]
  exact ht.snoc h.updates

theorem Traced.searched {v : State α} (ht : Traced ctx draws e₀ run)
    (h : Searched ctx draws run r v e) : Traced ctx draws e₀ r := by
  refine ⟨h.tracks ht.tracks, fun a ha => ?_, ?_, ?_⟩
  · rw [h.errors] at ha
    rcases List.mem_append.1 ha with ha | ha
    · exact ht.met a ha
    · obtain rfl := Option.some.inj (List.mem_singleton.1 ha)
      exact ⟨v, h.visits, h.error⟩
  · obtain ⟨a, ha, hle⟩ := ht.first
    exact ⟨a, h.errors ▸ List.mem_append_left _ ha, hle⟩
  · rcases h.best with ⟨-, hbest, hpalette⟩ | ⟨-, hbest, hpalette⟩
    · exact ⟨v, e, h.visits, hpalette.symm, Or.inl hbest, h.paletteError⟩
    · rw [hbest, hpalette]
      exact ht.palette

/-- The first Sum phase. -/
theorem traced_of_start {v : State α} (ho : Orderly ctx draws)
    (hdepth : ctx.searchDepth = .ok depth) (hstart : start ctx draws = .ok run)
    (hgo : Comparable.lt (Arith.whole run.spent) depth = .ok true)
    (he₀ : run.sum.bestError = some e₀) (h : Searched ctx draws run r v e) :
    Traced ctx draws e₀ r := by
  obtain ⟨hp, hpalette, hbestPalette, hbest, hphases, hhistory, -⟩ := poised_of_start hstart
  have herrors : sumErrors r.phases = [some e] := by
    rw [h.errors, hphases]
    rfl
  have ht : Tracks (sumErrors run.phases) run.history run.bestError := by
    rw [hphases, hhistory, hbest]
    exact .nil
  refine ⟨h.tracks ht, fun a ha => ?_,
    ⟨e, herrors ▸ List.mem_singleton_self _, h.le_first _ he₀⟩, ?_⟩
  · rw [herrors] at ha
    obtain rfl := Option.some.inj (List.mem_singleton.1 ha)
    exact ⟨v, h.visits, h.error⟩
  · rcases h.best with ⟨-, hb, hpal⟩ | ⟨hkept, hb, hpal⟩
    · exact ⟨v, e, h.visits, hpal.symm, Or.inl hb, h.paletteError⟩
    · have hvisits : Visits ctx draws run.sum.opened :=
        ⟨depth, run, hdepth, .start hstart, hgo, .first⟩
      obtain ⟨-, -, -, e₁, he₁, hagg⟩ := hp.fresh
      obtain rfl := Option.some.inj (he₀.symm.trans he₁)
      -- an infinite error is not below another one, so it is that of the original palette
      have hinfinite : Arith.bounded e = .ok false := by
        rw [hbest] at hkept
        exact hkept
      have he : e = e₀ := by
        rcases h.le_first _ he₀ with rfl | hlt
        · rfl
        · exact nomatch hinfinite.symm.trans
            (ho.errors.bounded_of_lt ⟨v, h.visits, h.error⟩ ⟨_, hvisits, hagg⟩ hlt)
      refine ⟨run.sum.opened, e₀, hvisits, ?_, Or.inr ⟨hb.trans hbest, he ▸ hinfinite⟩,
        (hp.opened_coherent.paletteError_eq .sum).trans hagg⟩
      exact hpalette.trans (hpal.trans hbestPalette).symm

/-- What a disturbance leaves as it was. -/
theorem Traced.of_eq (hr : Traced ctx draws e₀ r) (h : (sumErrors t.phases, t.history, t.bestError,
    t.bestPalette) = (sumErrors r.phases, r.history, r.bestError, r.bestPalette)) :
    Traced ctx draws e₀ t := by
  simp only [Prod.mk.injEq] at h
  obtain ⟨herrors, hhistory, hbest, hpalette⟩ := h
  constructor
  · rw [herrors, hhistory, hbest]
    exact hr.tracks
  · rw [herrors]
    exact hr.met
  · rw [herrors]
    exact hr.first
  · rw [hbest, hpalette]
    exact hr.palette

section Whole

variable (ho : Orderly ctx draws) (hdepth : ctx.searchDepth = .ok depth) {run₀ : Run α}
  (hstart : start ctx draws = .ok run₀) (he₀ : run₀.sum.bestError = some e₀)

include ho hdepth hstart he₀

/-- After the first Sum phase or a later one. -/
theorem traced_of_searched {v : State α} (ht : run = run₀ ∨ Traced ctx draws e₀ run)
    (hgo : Comparable.lt (Arith.whole run.spent) depth = .ok true)
    (h : Searched ctx draws run r v e) : Traced ctx draws e₀ r := by
  rcases ht with rfl | ht
  · exact traced_of_start ho hdepth hstart hgo he₀ h
  · exact ht.searched h

/-- Before every Sum phase but the first, the best error and the best palette belong together. -/
theorem poised_of_reached (h : Reached ctx depth draws run) :
    Poised ctx run ∧ (run = run₀ ∨ Traced ctx draws e₀ run) := by
  induction h with
  | start h =>
    obtain rfl := Except.ok.inj (hstart.symm.trans h)
    exact ⟨(poised_of_start h).1, Or.inl rfl⟩
  | @next run r t h hgo hr hgo' ht ih =>
    obtain ⟨hp, htraced⟩ := ih
    obtain ⟨⟨v, e, hsearched⟩, hready⟩ := exists_searched ho hdepth h hgo hp hr
    obtain ⟨hp', hkept⟩ := poised_of_disturb hready ht
    have hr' := traced_of_searched ho hdepth hstart he₀ htraced hgo hsearched
    exact ⟨hp', Or.inr (hr'.of_eq hkept)⟩

theorem traced_of_ends (hpositive : Comparable.lt (Arith.whole 0) depth = .ok true)
    (h : Ends ctx depth draws r) : Traced ctx draws e₀ r := by
  have hspent : run₀.spent = 0 := (poised_of_start hstart).2.2.2.2.2.2
  rcases h with ⟨h, hstop⟩ | ⟨h, hgo, hr, -⟩
  · rcases (poised_of_reached ho hdepth hstart he₀ h).2 with rfl | ht
    · rw [hspent] at hstop
      exact nomatch hpositive.symm.trans hstop
    · exact ht
  · obtain ⟨hp, htraced⟩ := poised_of_reached ho hdepth hstart he₀ h
    obtain ⟨⟨v, e, hsearched⟩, -⟩ := exists_searched ho hdepth h hgo hp hr
    exact traced_of_searched ho hdepth hstart he₀ htraced hgo hsearched

end Whole

end Run

end Dichromat
