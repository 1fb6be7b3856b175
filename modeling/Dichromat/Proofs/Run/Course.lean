import Dichromat.Optimizer
import Dichromat.Proofs.Search.Frame
import Dichromat.Proofs.Search.Phase

/-!
# The course of a run

What it takes for a phase of a run to succeed, and the runs at which the loop stands before its Sum
phases (`Run.Reached`). The states that these phases go through are those that the run visits
(`Run.Visits`); with those of the disturbances they are all that it holds (`Run.Holds`). A run ends
before a Sum phase or right after one (`Run.ends_of_alternate`), and so does the search that returns
its result (`optimize_eq_ok`).
-/

namespace Dichromat

variable {α : Type} [ColorArith α] {ctx : Context α}

/-! ### Explorations -/

namespace State

variable {s t : State α} {draws rest : Draws α}

theorem explore_eq_ok : (explore ctx).apply (s, draws) = .ok (t, rest) ↔ s.phase = .prepared ∧
    ((s.strategy = .shake ∧ (exploreShake ctx).apply (s, draws) = .ok (t, rest)) ∨
      (s.strategy ≠ .shake ∧ (exploreTabu ctx).apply s = .ok t ∧ rest = draws)) := by
  simp only [Update.apply_eq_ok]
  unfold explore
  rw [Update.runOn_bind_of_ok (Update.runOn_get _)]
  simp only
  by_cases hphase : s.phase = .prepared
  · rw [if_neg (not_not_intro hphase), and_iff_right hphase]
    have htabu : (onState (exploreTabu ctx)).runOn (s, draws) = (.ok (), t, rest) ↔
        (exploreTabu ctx).runOn s = (.ok (), t) ∧ rest = draws := by
      rw [runOn_onState, Prod.mk.injEq, Prod.mk.injEq, ← and_assoc, ← Prod.mk.injEq,
        eq_comm (a := draws)]
    cases hstrategy : s.strategy with
    | shake => simp
    | tabuSum => simpa using htabu
    | tabuMax => simpa using htabu
  · rw [if_pos hphase]
    refine iff_of_false (fun h => ?_) fun h => hphase h.1
    obtain ⟨_, _, hthrow, -⟩ := Update.runOn_bind_eq_ok.1 h
    exact nomatch (Prod.mk.inj hthrow).1

/-- The states that an exploration goes through from a prepared one on: a Tabu search as its
iterations begin and once they have recorded their palette, a shake after each of its colours, and
that in which it ends. -/
inductive Explores (ctx : Context α) (s : State α) (draws : Draws α) : State α → Prop
  | prepared : Explores ctx s draws s
  | begun {t : State α} (hs : s.strategy ≠ .shake) (h : Iterated ctx s.opened t) :
      Explores ctx s draws t
  | recorded {t r : State α} (hs : s.strategy ≠ .shake) (h : Iterated ctx s.opened t)
      (hgo : mayGoOn t = .ok true) (hr : Recorded ctx t r) : Explores ctx s draws r
  | shaken {n : Nat} {t : State α} {rest : Draws α} (hs : s.strategy = .shake)
      (hn : n ≤ s.palette.length)
      (h : ((List.range n).forM (shakeColor ctx)).runOn ({ s with phase := .exploring }, draws) =
        (.ok (), t, rest)) : Explores ctx s draws t
  | done {t : State α} {rest : Draws α} (h : (explore ctx).apply (s, draws) = .ok (t, rest)) :
      Explores ctx s draws t

end State

namespace Run

variable {run r : Run α}

theorem explorePhase_eq_ok {s t : State α} {draws rest : Draws α} {record : PhaseRecord α} :
    explorePhase ctx s draws = .ok (t, rest, record) ↔
      (State.explore ctx).apply (s, draws) = .ok (t, rest) ∧
        record = { strategy := t.strategy, iterations := t.iterated, errorBefore := s.bestError
                   errorAfter := t.bestError } := by
  unfold explorePhase
  simp only [bind_eq_ok, pure_eq_ok, Prod.mk.injEq, Prod.exists]
  constructor
  · rintro ⟨_, _, h, rfl, rfl, rfl⟩
    exact ⟨h, rfl⟩
  · rintro ⟨h, rfl⟩
    exact ⟨t, rest, h, rfl, rfl, rfl⟩

theorem searchPhase_eq_ok : searchPhase ctx run = .ok r ↔ ∃ sum draws record,
    explorePhase ctx run.sum run.draws = .ok (sum, draws, record) ∧
      ((improves sum.bestError run.bestError = .ok true ∧
          r = { run with
            sum, draws, phases := run.phases ++ [record], spent := run.spent + sum.iterated
            bestError := sum.bestError, bestPalette := sum.bestPalette
            bestIteration := run.spent + sum.bestIteration
            history := run.history ++ [sum.bestError] }) ∨
        (improves sum.bestError run.bestError = .ok false ∧
          r = { run with
            sum, draws, phases := run.phases ++ [record], spent := run.spent + sum.iterated
            history := run.history ++ [run.bestError] })) := by
  unfold searchPhase
  simp only [bind_eq_ok, Prod.exists]
  refine exists_congr fun sum => exists_congr fun draws => exists_congr fun record =>
    and_congr_right fun _ => ?_
  constructor
  · rintro ⟨_ | _, hb, h⟩
    · exact Or.inr ⟨hb, (pure_eq_ok.1 h).symm⟩
    · exact Or.inl ⟨hb, (pure_eq_ok.1 h).symm⟩
  · rintro (⟨hb, rfl⟩ | ⟨hb, rfl⟩)
    · exact ⟨true, hb, rfl⟩
    · exact ⟨false, hb, rfl⟩

/-- A Sum phase iterates from the state of the run up to a state `u`, and records it; the run takes
over the best palette of `u` if it is better. -/
theorem ended_of_searchPhase (hs : run.sum.strategy ≠ .shake) (h : searchPhase ctx run = .ok r) :
    ∃ u, State.Iterated ctx run.sum.opened u ∧ r.sum = { u with phase := .done } ∧
      r.max = run.max ∧ r.shaker = run.shaker ∧
      (∃ record, r.phases = run.phases ++ [record] ∧ record.strategy = u.strategy ∧
        record.errorAfter = u.bestError) ∧
      r.history = run.history ++ [r.bestError] ∧
      ((improves u.bestError run.bestError = .ok true ∧ r.bestError = u.bestError ∧
          r.bestPalette = u.bestPalette) ∨
        (improves u.bestError run.bestError = .ok false ∧ r.bestError = run.bestError ∧
          r.bestPalette = run.bestPalette)) := by
  obtain ⟨t, draws, record, hphase, hr⟩ := searchPhase_eq_ok.1 h
  obtain ⟨hexplore, rfl⟩ := explorePhase_eq_ok.1 hphase
  obtain ⟨-, ⟨hshake, -⟩ | ⟨-, ht, -⟩⟩ := State.explore_eq_ok.1 hexplore
  · exact absurd hshake hs
  obtain ⟨u, hu, -, rfl⟩ := State.iterated_of_exploreTabu ht
  rcases hr with ⟨hb, rfl⟩ | ⟨hb, rfl⟩
  · exact ⟨u, hu, rfl, rfl, rfl, ⟨_, rfl, rfl, rfl⟩, rfl, Or.inl ⟨hb, rfl, rfl⟩⟩
  · exact ⟨u, hu, rfl, rfl, rfl, ⟨_, rfl, rfl, rfl⟩, rfl, Or.inr ⟨hb, rfl, rfl⟩⟩

/-- The prepared state of the next disturbance. -/
def disturber (ctx : Context α) (run : Run α) : Except Fault (State α) :=
  if !run.disturbedByMax then
    (State.prepare ctx run.sum.bestPalette (Arith.whole run.spent)).apply run.max
  else (State.prepare ctx run.bestPalette (Arith.whole run.spent)).apply run.shaker

theorem disturber_eq : disturber ctx run = (State.prepare ctx
    (if run.disturbedByMax then run.bestPalette else run.sum.bestPalette)
    (Arith.whole run.spent)).apply (if run.disturbedByMax then run.shaker else run.max) := by
  unfold disturber
  cases run.disturbedByMax <;> rfl

theorem disturb_eq_ok : disturb ctx run = .ok r ↔ ∃ prepared disturbed draws record sum,
    disturber ctx run = .ok prepared ∧
      explorePhase ctx prepared run.draws = .ok (disturbed, draws, record) ∧
      (State.prepare ctx disturbed.bestPalette
        (Arith.whole (run.spent + disturbed.iterated))).apply run.sum = .ok sum ∧
      r = { run with
        sum, draws, spent := run.spent + disturbed.iterated
        max := if run.disturbedByMax then run.max else disturbed
        shaker := if run.disturbedByMax then disturbed else run.shaker
        disturbedByMax := !run.disturbedByMax, phases := run.phases ++ [record] } := by
  unfold disturb disturber
  cases run.disturbedByMax <;>
    simp only [Bool.not_true, Bool.not_false, Bool.false_eq_true, if_true, if_false, bind_eq_ok,
      pure_eq_ok, Prod.exists, exists_and_left, eq_comm (b := r)]

/-! ### The loop -/

/-- The runs at which the loop stands before it compares what is spent with the budget. -/
inductive Reached (ctx : Context α) (depth : α) (draws : Draws α) : Run α → Prop
  | start {run : Run α} (h : Run.start ctx draws = .ok run) : Reached ctx depth draws run
  | next {run r t : Run α} (h : Reached ctx depth draws run)
      (hgo : Comparable.lt (Arith.whole run.spent) depth = .ok true)
      (hr : searchPhase ctx run = .ok r)
      (hgo' : Comparable.le depth (Arith.whole r.spent) = .ok false)
      (ht : disturb ctx r = .ok t) : Reached ctx depth draws t

/-- The states that the Sum phases of a run go through. -/
def Visits (ctx : Context α) (draws : Draws α) (s : State α) : Prop :=
  ∃ depth run, ctx.searchDepth = .ok depth ∧ Reached ctx depth draws run ∧
    Comparable.lt (Arith.whole run.spent) depth = .ok true ∧
    State.Iterated ctx run.sum.opened s

/-- The states that a run holds: that which its first preparation leaves, even where it is refused,
and those that its Sum phases and its disturbances go through. -/
inductive Holds (ctx : Context α) (depth : α) (draws : Draws α) : State α → Prop
  | opening {outcome : Except Fault Unit} {s : State α}
      (h : (State.prepare ctx ctx.original (Arith.whole 0)).runOn
        (State.idle ctx.deficiency .tabuSum) = (outcome, s)) : Holds ctx depth draws s
  | sum {run : Run α} {s : State α} (h : Reached ctx depth draws run)
      (hs : State.Explores ctx run.sum run.draws s) : Holds ctx depth draws s
  | disturber {run r : Run α} {prepared s : State α} (h : Reached ctx depth draws run)
      (hgo : Comparable.lt (Arith.whole run.spent) depth = .ok true)
      (hr : searchPhase ctx run = .ok r)
      (hgo' : Comparable.le depth (Arith.whole r.spent) = .ok false)
      (hprepared : disturber ctx r = .ok prepared)
      (hs : State.Explores ctx prepared r.draws s) : Holds ctx depth draws s

/-- How a run ends: before a Sum phase that the budget does not allow, or right after one that has
spent the rest of it. -/
inductive Ends (ctx : Context α) (depth : α) (draws : Draws α) (r : Run α) : Prop
  | before (h : Reached ctx depth draws r)
      (hstop : Comparable.lt (Arith.whole r.spent) depth = .ok false)
  | after {run : Run α} (h : Reached ctx depth draws run)
      (hgo : Comparable.lt (Arith.whole run.spent) depth = .ok true)
      (hr : searchPhase ctx run = .ok r)
      (hstop : Comparable.le depth (Arith.whole r.spent) = .ok true)

theorem alternate_zero_eq_ok {depth : α} : alternate ctx depth 0 run = .ok r ↔
    Comparable.lt (Arith.whole run.spent) depth = .ok false ∧ r = run := by
  unfold alternate
  rw [bind_eq_ok]
  constructor
  · rintro ⟨_ | _, hgo, h⟩
    · exact ⟨hgo, (pure_eq_ok.1 h).symm⟩
    · exact nomatch h
  · rintro ⟨hstop, rfl⟩
    exact ⟨false, hstop, rfl⟩

theorem alternate_succ_eq_ok {depth : α} {fuel : Nat} :
    alternate ctx depth (fuel + 1) run = .ok r ↔
      (Comparable.lt (Arith.whole run.spent) depth = .ok false ∧ r = run) ∨
        (Comparable.lt (Arith.whole run.spent) depth = .ok true ∧ ∃ r',
          searchPhase ctx run = .ok r' ∧
            ((Comparable.le depth (Arith.whole r'.spent) = .ok true ∧ r = r') ∨
              (Comparable.le depth (Arith.whole r'.spent) = .ok false ∧ ∃ t,
                disturb ctx r' = .ok t ∧ alternate ctx depth fuel t = .ok r))) := by
  rw [alternate, bind_eq_ok]
  constructor
  · rintro ⟨_ | _, hgo, h⟩
    · exact Or.inl ⟨hgo, (pure_eq_ok.1 h).symm⟩
    · refine Or.inr ⟨hgo, ?_⟩
      simp only [if_true, bind_eq_ok] at h
      obtain ⟨r', hr', _ | _, hstop, h⟩ := h
      · exact ⟨r', hr', Or.inr ⟨hstop, bind_eq_ok.1 h⟩⟩
      · exact ⟨r', hr', Or.inl ⟨hstop, (pure_eq_ok.1 h).symm⟩⟩
  · rintro (⟨hstop, rfl⟩ | ⟨hgo, r', hr', ⟨hstop, rfl⟩ | ⟨hstop, t, ht, h⟩⟩)
    · exact ⟨false, hstop, rfl⟩
    · exact ⟨true, hgo, bind_eq_ok.2 ⟨r, hr', bind_eq_ok.2 ⟨true, hstop, rfl⟩⟩⟩
    · exact ⟨true, hgo, bind_eq_ok.2
        ⟨r', hr', bind_eq_ok.2 ⟨false, hstop, bind_eq_ok.2 ⟨t, ht, h⟩⟩⟩⟩

theorem ends_of_alternate {depth : α} {draws : Draws α} {fuel : Nat}
    (hrun : Reached ctx depth draws run) (h : alternate ctx depth fuel run = .ok r) :
    Ends ctx depth draws r := by
  induction fuel generalizing run with
  | zero =>
    obtain ⟨hstop, rfl⟩ := alternate_zero_eq_ok.1 h
    exact .before hrun hstop
  | succ fuel ih =>
    rcases alternate_succ_eq_ok.1 h with
      ⟨hstop, rfl⟩ | ⟨hgo, r', hr', ⟨hspent, rfl⟩ | ⟨hstop, t, ht, h⟩⟩
    · exact .before hrun hstop
    · exact .after hrun hgo hr' hspent
    · exact ih (.next hrun hgo hr' hstop ht) h

end Run

/-! ### Results -/

/-- What a result says where there are no errors to lower: the original palette. -/
structure Result.Unsearched (result : Result α) (ctx : Context α) : Prop where
  palette : ctx.original.mapM gammaOfLinearColor = .ok result.palette
  bestError : result.bestError = some result.initialError
  iterations : result.iterations = 0
  bestIteration : result.bestIteration = 0
  phases : result.phases = []
  history : result.history = []

/-- What a result takes over from the run that it is the result of. -/
structure Result.Reports (result : Result α) (run : Run α) : Prop where
  palette : run.bestPalette.mapM gammaOfLinearColor = .ok result.palette
  bestError : result.bestError = run.bestError
  iterations : result.iterations = run.spent
  bestIteration : result.bestIteration = run.bestIteration
  phases : result.phases = run.phases
  history : result.history = run.history

section Results

variable {draws rest : Draws α} {result : Result α}

theorem optimize_eq {palette : Palette α} {d : Deficiency} {settings : Settings α}
    (hsettings : settings.validate = .ok ()) (hctx : Context.ofGamma palette d settings = .ok ctx)
    (draws : Draws α) : optimize palette d settings draws = ctx.optimize draws := by
  rw [optimize, hsettings, ok_bind, hctx, ok_bind]

/-- Without colours there is nothing to search. -/
theorem optimize_of_isEmpty (draws : Draws α) (h : ctx.original = []) :
    ∃ result, ctx.optimize draws = .ok (result, draws) ∧ result.Unsearched ctx ∧
      result.initialError = Arith.decimal 0 0 := by
  have hempty : ctx.original.isEmpty = true := List.isEmpty_iff.2 h
  unfold Context.optimize
  rw [if_pos hempty]
  exact ⟨_, rfl, ⟨by rw [h]; rfl, rfl, rfl, rfl, rfl, rfl⟩, rfl⟩

theorem unsearched_of_isEmpty (hnil : ctx.original = []) (h : ctx.optimize draws = .ok (result, rest)) :
    result.Unsearched ctx ∧ result.initialError = Arith.decimal 0 0 := by
  obtain ⟨result', h', hunsearched, hzero⟩ := optimize_of_isEmpty draws hnil
  obtain ⟨rfl, -⟩ := Prod.mk.inj (Except.ok.inj (h'.symm.trans h))
  exact ⟨hunsearched, hzero⟩

/-- A search starts a run and, where there are errors to lower, takes its result from the end of
it; where there are none it draws nothing. -/
theorem optimize_eq_ok (hne : ctx.original ≠ []) (h : ctx.optimize draws = .ok (result, rest)) :
    ∃ depth run₀, ctx.searchDepth = .ok depth ∧ Run.start ctx draws = .ok run₀ ∧
      run₀.sum.bestError = some result.initialError ∧
      ((Comparable.le result.initialError (Arith.whole 0) = .ok true ∧ result.Unsearched ctx ∧
          rest = draws) ∨
        (Comparable.le result.initialError (Arith.whole 0) = .ok false ∧ ∃ run,
          Run.alternate ctx depth (2 * Arith.horizon depth + 2) run₀ = .ok run ∧
          result.Reports run)) := by
  have hempty : ctx.original.isEmpty = false := by
    rwa [List.isEmpty_eq_false_iff]
  unfold Context.optimize at h
  simp only [hempty, Bool.false_eq_true, if_false] at h
  obtain ⟨depth, hdepth, h⟩ := bind_eq_ok.1 h
  obtain ⟨run₀, hstart, h⟩ := bind_eq_ok.1 h
  rcases he₀ : run₀.sum.bestError with _ | e₀
  · rw [he₀] at h
    exact nomatch h
  · simp only [he₀] at h
    obtain ⟨done, hdone, h⟩ := bind_eq_ok.1 h
    cases done with
    | true =>
      obtain ⟨palette, hpalette, h⟩ := bind_eq_ok.1 h
      obtain ⟨rfl, hrest⟩ := Prod.mk.inj (pure_eq_ok.1 h)
      exact ⟨depth, run₀, hdepth, hstart, he₀,
        Or.inl ⟨hdone, ⟨hpalette, rfl, rfl, rfl, rfl, rfl⟩, hrest.symm⟩⟩
    | false =>
      obtain ⟨run, hrun, h⟩ := bind_eq_ok.1 h
      obtain ⟨palette, hpalette, h⟩ := bind_eq_ok.1 h
      obtain ⟨rfl, -⟩ := Prod.mk.inj (pure_eq_ok.1 h)
      exact ⟨depth, run₀, hdepth, hstart, he₀,
        Or.inr ⟨hdone, run, hrun, hpalette, rfl, rfl, rfl, rfl, rfl⟩⟩

end Results

end Dichromat
