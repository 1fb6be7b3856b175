import Dichromat.Proofs.Exact.Input
import Dichromat.Proofs.Exact.Shake
import Dichromat.Proofs.Run.Best

/-!
# Runs in exact arithmetic

A run of the palette of a regular context is never refused: every phase can be prepared and explored
(`exists_searchPhase`, `exists_disturb`), and as every Sum phase spends an iteration of what is left
of the budget, the loop ends (`exists_alternate`). Every step of it has a move (`orderly`).
-/

noncomputable section

namespace Dichromat

namespace Exact

open State

variable {ctx : Context ℝ} {s t : State ℝ} {run r : Run ℝ} {draws : Draws ℝ} {depth : ℝ}

/-! ### Phases of a run -/

/-- Before a Sum phase: its state is freshly prepared, and all others can be. -/
structure Fit (ctx : Context ℝ) (run : Run ℝ) : Prop where
  sum : ∃ s source, s.projector.Serves ctx.deficiency ∧ s.strategy = .tabuSum ∧ Fits ctx source ∧
    (prepare ctx source (run.spent : ℝ)).apply s = .ok run.sum
  max : run.max.projector.Serves ctx.deficiency ∧ run.max.strategy = .tabuMax
  shaker : run.shaker.projector.Serves ctx.deficiency ∧ run.shaker.strategy = .shake
  bestPalette : Fits ctx run.bestPalette

/-- After a Sum phase: all states can be prepared, from either best palette. -/
structure Rested (ctx : Context ℝ) (run : Run ℝ) : Prop where
  sum : run.sum.projector.Serves ctx.deficiency ∧ run.sum.strategy = .tabuSum
  sumPalette : Fits ctx run.sum.bestPalette
  max : run.max.projector.Serves ctx.deficiency ∧ run.max.strategy = .tabuMax
  shaker : run.shaker.projector.Serves ctx.deficiency ∧ run.shaker.strategy = .shake
  bestPalette : Fits ctx run.bestPalette

theorem Fit.ready (hrun : Fit ctx run) : Ready ctx run.sum ∧ run.sum.strategy = .tabuSum ∧
    run.sum.phase = .prepared ∧ run.sum.iterated = 0 := by
  obtain ⟨s, source, hserves, hstrategy, hsource, hs⟩ := hrun.sum
  obtain ⟨hready, hst, hphase, hiterated, -⟩ := ready_of_prepare hserves hsource hs
  exact ⟨hready, hst.trans hstrategy, hphase, hiterated⟩

theorem searchDepth_eq (ctx : Context ℝ) :
    ctx.searchDepth = .ok (ctx.settings.depthPerColor * ctx.size) := rfl

theorem searchDepth_pos (hctx : Funded ctx) :
    Comparable.lt (Arith.whole 0) (ctx.settings.depthPerColor * ctx.size) = .ok true := by
  rw [lt_eq, whole_eq, Int.cast_zero, Except.ok.injEq, decide_eq_true_eq]
  exact mul_pos hctx.depth (Nat.cast_pos.2 hctx.size)

/-- While the budget lasts, a Sum phase may begin. -/
theorem Fit.mayGoOn (hctx : Funded ctx) (hrun : Fit ctx run)
    (hgo : (run.spent : ℝ) < ctx.settings.depthPerColor * ctx.size) :
    State.mayGoOn run.sum.opened = .ok true := by
  obtain ⟨s, source, hserves, hstrategy, hsource, hs⟩ := hrun.sum
  refine mayGoOn_opened hctx hserves hsource hs ?_
  rw [hstrategy]
  exact sub_pos.2 hgo

theorem exists_improves (error best : Option ℝ) : ∃ b, Run.improves error best = .ok b := by
  rcases error with _ | e
  · exact ⟨false, rfl⟩
  · cases best with
    | none => exact ⟨_, isBelow_none e⟩
    | some b => exact ⟨_, isBelow_some e b⟩

theorem exists_searchPhase (hrun : Fit ctx run) :
    ∃ r, Run.searchPhase ctx run = .ok r ∧ Rested ctx r ∧
      (State.mayGoOn run.sum.opened = .ok true → run.spent + 1 ≤ r.spent) := by
  obtain ⟨hready, hstrategy, hphase, hiterated⟩ := hrun.ready
  obtain ⟨t, ht, ht', hst, -, hstep⟩ := exists_exploreTabu hready
  have hne : run.sum.strategy ≠ .shake := by
    rw [hstrategy]
    exact nofun
  have hexplore : (explore ctx).apply (run.sum, run.draws) = .ok (t, run.draws) :=
    explore_eq_ok.2 ⟨hphase, Or.inr ⟨hne, ht, rfl⟩⟩
  have hspent : State.mayGoOn run.sum.opened = .ok true →
      run.spent + 1 ≤ run.spent + t.iterated := by
    intro hgo
    have := hstep hgo
    omega
  have hsum : t.projector.Serves ctx.deficiency ∧ t.strategy = .tabuSum :=
    ⟨ht'.coherent.projector, hst.trans hstrategy⟩
  obtain ⟨better, hbetter⟩ := exists_improves t.bestError run.bestError
  cases better with
  | true =>
    exact ⟨_, Run.searchPhase_eq_ok.2 ⟨t, _, _, Run.explorePhase_eq_ok.2 ⟨hexplore, rfl⟩,
      Or.inl ⟨hbetter, rfl⟩⟩, ⟨hsum, ht'.bestPalette, hrun.max, hrun.shaker, ht'.bestPalette⟩,
      hspent⟩
  | false =>
    exact ⟨_, Run.searchPhase_eq_ok.2 ⟨t, _, _, Run.explorePhase_eq_ok.2 ⟨hexplore, rfl⟩,
      Or.inr ⟨hbetter, rfl⟩⟩, ⟨hsum, ht'.bestPalette, hrun.max, hrun.shaker, hrun.bestPalette⟩,
      hspent⟩

theorem Fit.rested (hrun : Fit ctx run) (hr : Run.searchPhase ctx run = .ok r) :
    Rested ctx r := by
  obtain ⟨r', hr', hrested, -⟩ := exists_searchPhase hrun
  rwa [Except.ok.inj (hr.symm.trans hr')]

/-- What a disturbance leaves behind, whether a Max phase or a shake. -/
theorem exists_disturbed (hctx : Regular ctx) (hp : s.projector.Serves ctx.deficiency)
    {source : List (Triple ℝ)} (hsource : Fits ctx source)
    (spent : ℝ) (draws : Draws ℝ) : ∃ prepared t rest,
      (prepare ctx source spent).apply s = .ok prepared ∧
      (explore ctx).apply (prepared, draws) = .ok (t, rest) ∧
      t.projector.Serves ctx.deficiency ∧ t.strategy = s.strategy ∧ Fits ctx t.bestPalette ∧
      0 ≤ t.iterated := by
  obtain ⟨p, hprepared⟩ := exists_prepare hctx hp hsource spent
  obtain ⟨hready, hst, hphase, hiterated, -⟩ := ready_of_prepare hp hsource hprepared
  by_cases hshake : p.strategy = .shake
  · obtain ⟨t, rest, ht, hserves, hbest, -, hst', hit⟩ :=
      exists_exploreShake hctx hready.coherent.projector hready.palette draws
    exact ⟨p, t, rest, hprepared, explore_eq_ok.2 ⟨hphase, Or.inl ⟨hshake, ht⟩⟩, hserves,
      hst'.trans hst, hbest, by omega⟩
  · obtain ⟨t, ht, ht', hst', hle, -⟩ := exists_exploreTabu hready
    exact ⟨p, t, draws, hprepared, explore_eq_ok.2 ⟨hphase, Or.inr ⟨hshake, ht, rfl⟩⟩,
      ht'.coherent.projector, hst'.trans hst, ht'.bestPalette, by omega⟩

section Rested

variable (hr : Rested ctx r)

include hr

theorem Rested.serves :
    (if r.disturbedByMax then r.shaker else r.max).projector.Serves ctx.deficiency := by
  split_ifs
  · exact hr.shaker.1
  · exact hr.max.1

theorem Rested.source :
    Fits ctx (if r.disturbedByMax then r.bestPalette else r.sum.bestPalette) := by
  split_ifs
  · exact hr.bestPalette
  · exact hr.sumPalette

end Rested

theorem exists_disturb (hctx : Regular ctx) (hr : Rested ctx r) :
    ∃ t, Run.disturb ctx r = .ok t ∧ Fit ctx t ∧ r.spent ≤ t.spent := by
  obtain ⟨prepared, d, rest, hprepared, hexplore, hd, hst, hbest, hit⟩ :=
    exists_disturbed hctx hr.serves hr.source (r.spent : ℝ) r.draws
  obtain ⟨sum, hsum⟩ := exists_prepare hctx hr.sum.1 hbest ((r.spent + d.iterated : ℤ) : ℝ)
  refine ⟨_, Run.disturb_eq_ok.2 ⟨prepared, d, rest, _, sum, Run.disturber_eq.trans hprepared,
    Run.explorePhase_eq_ok.2 ⟨hexplore, rfl⟩, hsum, rfl⟩,
    ⟨⟨r.sum, _, hr.sum.1, hr.sum.2, hbest, hsum⟩, ?_, ?_, hr.bestPalette⟩,
    Int.le_add_of_nonneg_right hit⟩
  · cases hby : r.disturbedByMax with
    | true => exact hr.max
    | false =>
      rw [hby] at hst
      exact ⟨hd, hst.trans hr.max.2⟩
  · cases hby : r.disturbedByMax with
    | true =>
      rw [hby] at hst
      exact ⟨hd, hst.trans hr.shaker.2⟩
    | false => exact hr.shaker

/-! ### Whole runs -/

theorem exists_start (hctx : Regular ctx) (draws : Draws ℝ) :
    ∃ run, Run.start ctx draws = .ok run ∧ Fit ctx run ∧ run.spent = 0 := by
  have hserves (st : Strategy) :
      (State.idle ctx.deficiency st : State ℝ).projector.Serves ctx.deficiency :=
    Projector.serves_ofDeficiency _
  obtain ⟨sum, hsum⟩ := exists_prepare hctx (hserves .tabuSum) hctx.original ((0 : ℤ) : ℝ)
  exact ⟨_, bind_eq_ok.2 ⟨sum, hsum, rfl⟩, ⟨⟨_, _, hserves _, rfl, hctx.original, hsum⟩,
    ⟨hserves _, rfl⟩, ⟨hserves _, rfl⟩, hctx.original⟩, rfl⟩

/-- The loop ends: every Sum phase spends at least one iteration of the budget. -/
theorem exists_alternate (hctx : Regular ctx) (hfunded : Funded ctx)
    (hdepth : depth = ctx.settings.depthPerColor * ctx.size) (hrun : Fit ctx run) {fuel : ℕ}
    (hfuel : depth ≤ run.spent + fuel) : ∃ r, Run.alternate ctx depth fuel run = .ok r := by
  induction fuel generalizing run with
  | zero =>
    rw [Nat.cast_zero, add_zero] at hfuel
    refine ⟨run, Run.alternate_zero_eq_ok.2 ⟨?_, rfl⟩⟩
    rw [whole_eq, lt_eq, decide_eq_false (not_lt.2 hfuel)]
  | succ fuel ih =>
    simp only [Run.alternate_succ_eq_ok, whole_eq, lt_eq, le_eq, Except.ok.injEq,
      decide_eq_true_eq, decide_eq_false_iff_not]
    by_cases hgo : (run.spent : ℝ) < depth
    · obtain ⟨r, hr, hrested, hspent⟩ := exists_searchPhase hrun
      by_cases hstop : depth ≤ (r.spent : ℝ)
      · exact ⟨r, Or.inr ⟨hgo, r, hr, Or.inl ⟨hstop, rfl⟩⟩⟩
      · obtain ⟨t, ht, hfit, hle⟩ := exists_disturb hctx hrested
        have hmore : run.spent + 1 ≤ t.spent :=
          (hspent (hrun.mayGoOn hfunded (hdepth ▸ hgo))).trans hle
        have hmore' : (run.spent : ℝ) + 1 ≤ t.spent := by exact_mod_cast hmore
        obtain ⟨u, hu⟩ := ih hfit (by push_cast at hfuel; linarith)
        exact ⟨u, Or.inr ⟨hgo, r, hr, Or.inr ⟨hstop, t, ht, hu⟩⟩⟩
    · exact ⟨run, Or.inl ⟨hgo, rfl⟩⟩

theorem fit_of_reached (hctx : Regular ctx) (h : Run.Reached ctx depth draws run) :
    Fit ctx run := by
  induction h with
  | start h =>
    obtain ⟨run, hrun, hfit, -⟩ := exists_start hctx draws
    obtain rfl := Except.ok.inj (hrun.symm.trans h)
    exact hfit
  | next _ _ hr _ ht ih =>
    obtain ⟨t, ht', hfit, -⟩ := exists_disturb hctx (ih.rested hr)
    obtain rfl := Except.ok.inj (ht'.symm.trans ht)
    exact hfit

theorem ordered (P : ℝ → Prop) : Ordered P where
  lt_ok _ _ := ⟨_, rfl⟩
  irrefl {a} _ := by rw [lt_eq, decide_eq_false (lt_irrefl a)]
  trans {a b c} _ _ _ h h' := by
    rw [lt_eq, Except.ok.injEq, decide_eq_true_eq] at *
    exact h.trans h'
  bounded_ok _ := ⟨_, rfl⟩
  bounded_of_lt _ _ _ := rfl

/-- In exact arithmetic all errors are in order, and every step has a move. -/
theorem orderly (hctx : Regular ctx) (draws : Draws ℝ) : Run.Orderly ctx draws := by
  refine ⟨ordered _, ?_⟩
  rintro s ⟨depth, run, -, hrun, -, hs⟩ -
  exact ((fit_of_reached hctx hrun).ready.1.opened.iterated hs).1.hasMove

/-! ### Results -/

/-- A search over a regular context with budgets returns a result. -/
theorem exists_optimize (hctx : Regular ctx) (hfunded : Funded ctx) (draws : Draws ℝ) :
    ∃ result rest, ctx.optimize draws = .ok (result, rest) := by
  obtain ⟨run₀, hstart, hfit, hspent⟩ := exists_start hctx draws
  obtain ⟨-, -, -, e₀, he₀, -⟩ := (Run.poised_of_start hstart).1.fresh
  have hempty : ctx.original.isEmpty = false := by
    rw [List.isEmpty_eq_false_iff]
    exact List.ne_nil_of_length_pos hfunded.size
  unfold Context.optimize
  simp only [hempty, Bool.false_eq_true, if_false, searchDepth_eq, ok_bind, hstart, he₀]
  by_cases hdone : e₀ ≤ 0
  · simp only [le_eq, whole_eq, Int.cast_zero, hdone, decide_true, ok_bind, if_true,
      gammaOfLinearColors_eq]
    exact ⟨_, _, rfl⟩
  · have hfuel : ctx.settings.depthPerColor * ctx.size ≤
        run₀.spent + (2 * ⌈ctx.settings.depthPerColor * ctx.size⌉₊ + 2 : ℕ) := by
      have := Nat.le_ceil (ctx.settings.depthPerColor * ctx.size)
      have hn : (0 : ℝ) ≤ ⌈ctx.settings.depthPerColor * ctx.size⌉₊ := Nat.cast_nonneg _
      rw [hspent]
      push_cast
      linarith
    obtain ⟨run, hrun⟩ := exists_alternate hctx hfunded rfl hfit hfuel
    simp only [le_eq, whole_eq, Int.cast_zero, hdone, decide_false, ok_bind, Bool.false_eq_true,
      if_false, horizon_eq, hrun, gammaOfLinearColors_eq]
    exact ⟨_, _, rfl⟩

/-- Checked settings fund the search of every palette that has colours. -/
theorem exists_optimize_of_validate (hctx : Regular ctx) (h : ctx.settings.validate = .ok ())
    (draws : Draws ℝ) : ∃ result rest, ctx.optimize draws = .ok (result, rest) := by
  by_cases hne : ctx.original = []
  · obtain ⟨result, hresult, -⟩ := optimize_of_isEmpty draws hne
    exact ⟨result, draws, hresult⟩
  · exact exists_optimize hctx (funded_of_validate h hne) draws

end Exact

end Dichromat

end
