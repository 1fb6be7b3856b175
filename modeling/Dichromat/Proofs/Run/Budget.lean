import Dichromat.Proofs.Run.Optimum
import Dichromat.Proofs.Search.Clock

/-!
# The budget of a run

Where the budgets are whole numbers, every Sum phase takes at least one iteration and no more than
are left, a Max phase its whole duration, and a shake none (`State.Timed.explore`). So what a run has
spent before a Sum phase is below its depth or comes from a Max phase that has begun below it
(`Run.Paced`), and the run ends with its budget spent (`Run.withinBudget_of_ends`); more fuel than
its depth changes nothing (`Run.Paced.alternate_eq`).
-/

namespace Dichromat

variable {α : Type} [ColorArith α] [Counting α] {ctx : Context α} {b : Budgets}
  {draws rest : Draws α}

/-! ### Phases -/

/-- The iterations of an exploration of a freshly prepared state. -/
theorem State.Timed.explore {s t : State α} {limit : Int} (hb : b.Fund ctx) (hs : Timed b limit s)
    (hzero : s.iterated = 0) (h : (State.explore ctx).apply (s, draws) = .ok (t, rest)) :
    t.strategy = s.strategy ∧ 0 ≤ t.bestIteration ∧ t.bestIteration ≤ t.iterated ∧
      t.iterated = if s.strategy = .shake then 0
        else max 0 (min limit (b.stall s.strategy limit t.bestIteration)) := by
  obtain ⟨-, ⟨hshake, h⟩ | ⟨hshake, h, -⟩⟩ := State.explore_eq_ok.1 h
  · have hclock := State.clock_of_exploreShake h
    have ht := hs.of_clock hclock
    obtain ⟨hstrategy, hiterated, -⟩ := by
      simpa only [State.clock, Prod.mk.injEq] using hclock
    rw [if_pos hshake]
    exact ⟨hstrategy, ht.best_nonneg, ht.best_le, hiterated.trans hzero⟩
  · obtain ⟨ht, hstrategy, hiterated⟩ := hs.exploreTabu hb.toAllot h
    rw [if_neg hshake]
    exact ⟨hstrategy, ht.best_nonneg, ht.best_le, hiterated⟩

namespace Run

variable {run r t : Run α}

/-- All iterations of some phases. -/
def iterationsOf (phases : List (PhaseRecord α)) : Int := (phases.map PhaseRecord.iterations).sum

omit [ColorArith α] [Counting α] in
theorem iterationsOf_append (phases : List (PhaseRecord α)) (record : PhaseRecord α) :
    iterationsOf (phases ++ [record]) = iterationsOf phases + record.iterations := by
  simp [iterationsOf]

/-- What a run says it has spent, and where its best palette was found. -/
structure Accounts (run : Run α) : Prop where
  spent : run.spent = iterationsOf run.phases
  best_nonneg : 0 ≤ run.bestIteration
  best_le : run.bestIteration ≤ run.spent

/-- Before a Sum phase: its state is freshly prepared with what is left of the budget. If nothing is
left, a Max phase has spent the rest. -/
structure Paced (b : Budgets) (ctx : Context α) (run : Run α) : Prop where
  sum : ∃ s source, s.strategy = .tabuSum ∧
    (State.prepare ctx source (Arith.whole run.spent)).apply s = .ok run.sum
  max : run.max.strategy = .tabuMax
  shaker : run.shaker.strategy = .shake
  accounts : run.Accounts
  budget : run.spent < b.depth ∨ (run.spent ≤ b.depth - 1 + b.duration ∧
    ∃ record, run.phases.getLast? = some record ∧ record.strategy = .tabuMax)

/-- After a Sum phase, which has spent some of the budget and no more. -/
structure Spending (b : Budgets) (run r : Run α) : Prop where
  sum : r.sum.strategy = .tabuSum
  max : r.max.strategy = .tabuMax
  shaker : r.shaker.strategy = .shake
  accounts : r.Accounts
  progress : run.spent < r.spent
  budget : r.spent ≤ b.depth
  last : ∃ record, r.phases.getLast? = some record ∧ record.strategy = .tabuSum

omit [ColorArith α] [Counting α] in
/-- A phase of `n` iterations, the best of which is that of iteration `k` of the phase if it is not
an earlier one. -/
theorem Accounts.add (h : run.Accounts) {record : PhaseRecord α} {n k : Int}
    (hphases : r.phases = run.phases ++ [record]) (hn : record.iterations = n)
    (hspent : r.spent = run.spent + n) (hk₀ : 0 ≤ k) (hk : k ≤ n)
    (hbest : r.bestIteration = run.spent + k ∨ r.bestIteration = run.bestIteration) :
    r.Accounts := by
  obtain ⟨hsum, hbest₀, hbest₁⟩ := h
  constructor
  · rw [hphases, iterationsOf_append, hn, hspent, hsum]
  · omega
  · omega

omit [Counting α] in
/-- What a Sum phase does to what a run has spent. -/
theorem spent_of_searchPhase (h : searchPhase ctx run = .ok r) : ∃ u draws,
    (State.explore ctx).apply (run.sum, run.draws) = .ok (u, draws) ∧
      r.sum = u ∧ r.max = run.max ∧ r.shaker = run.shaker ∧ r.spent = run.spent + u.iterated ∧
      (∃ record, r.phases = run.phases ++ [record] ∧ record.strategy = u.strategy ∧
        record.iterations = u.iterated) ∧
      (r.bestIteration = run.spent + u.bestIteration ∨ r.bestIteration = run.bestIteration) := by
  obtain ⟨u, draws, record, hphase, hr⟩ := searchPhase_eq_ok.1 h
  obtain ⟨hexplore, rfl⟩ := explorePhase_eq_ok.1 hphase
  rcases hr with ⟨-, rfl⟩ | ⟨-, rfl⟩
  · exact ⟨u, draws, hexplore, rfl, rfl, rfl, rfl, ⟨_, rfl, rfl, rfl⟩, Or.inl rfl⟩
  · exact ⟨u, draws, hexplore, rfl, rfl, rfl, rfl, ⟨_, rfl, rfl, rfl⟩, Or.inr rfl⟩

omit [Counting α] in
theorem paced_of_start (hb : b.Fund ctx) (h : start ctx draws = .ok run) :
    Paced b ctx run ∧ run.spent = 0 := by
  obtain ⟨sum, hsum, h⟩ := bind_eq_ok.1 h
  obtain rfl := pure_eq_ok.1 h
  exact ⟨⟨⟨_, _, rfl, hsum⟩, rfl, rfl, ⟨rfl, Int.le_refl _, Int.le_refl _⟩, Or.inl hb.depth_pos⟩,
    rfl⟩

section Phases

variable (hb : b.Fund ctx)

include hb

theorem Paced.spending (hp : Paced b ctx run) (hgo : run.spent < b.depth)
    (hr : searchPhase ctx run = .ok r) : Spending b run r := by
  obtain ⟨s, source, hstrategy, hs⟩ := hp.sum
  obtain ⟨htimed, hsum, -, hzero⟩ := State.timed_of_prepare hb.toAllot hs
  rw [hstrategy] at htimed hsum
  obtain ⟨u, draws, hexplore, rfl, hmax, hshaker, hspent, ⟨record, hphases, hrecord, hn⟩, hbest⟩ :=
    spent_of_searchPhase hr
  obtain ⟨hu, hbest₀, hbest₁, hiterated⟩ := htimed.explore hb hzero hexplore
  have hlimit : b.limit .tabuSum run.spent = b.depth - run.spent := rfl
  have hstall : b.stall .tabuSum (b.limit .tabuSum run.spent) r.sum.bestIteration =
    r.sum.bestIteration + b.stalling := rfl
  rw [hsum, if_neg nofun, hstall, hlimit] at hiterated
  have hperiod := hb.stalling_pos
  refine ⟨hu.trans hsum, hmax ▸ hp.max, hshaker ▸ hp.shaker,
    hp.accounts.add hphases hn hspent hbest₀ hbest₁ hbest, by omega, by omega, record, ?_,
    hrecord.trans (hu.trans hsum)⟩
  rw [hphases, List.getLast?_concat]

/-- A Max phase takes its duration, a shake nothing. -/
theorem Spending.disturbed {prepared disturbed : State α} (hr : Spending b run r)
    (hprepared : disturber ctx r = .ok prepared)
    (h : (State.explore ctx).apply (prepared, r.draws) = .ok (disturbed, rest)) :
    0 ≤ disturbed.bestIteration ∧ disturbed.bestIteration ≤ disturbed.iterated ∧
      ((r.disturbedByMax = true ∧ disturbed.strategy = .shake ∧ disturbed.iterated = 0) ∨
        (r.disturbedByMax = false ∧ disturbed.strategy = .tabuMax ∧
          disturbed.iterated = b.duration)) := by
  rw [disturber_eq] at hprepared
  obtain ⟨htimed, hstrategy, -, hzero⟩ := State.timed_of_prepare hb.toAllot hprepared
  obtain ⟨hd, hbest₀, hbest₁, hiterated⟩ := htimed.explore hb hzero h
  refine ⟨hbest₀, hbest₁, ?_⟩
  cases hby : r.disturbedByMax with
  | true =>
    rw [hby, if_pos rfl, hr.shaker] at hstrategy
    rw [hstrategy, if_pos rfl] at hiterated
    exact Or.inl ⟨rfl, hd.trans hstrategy, hiterated⟩
  | false =>
    rw [hby, if_neg Bool.false_ne_true, hr.max] at hstrategy hiterated
    have hlimit : b.limit .tabuMax r.spent = b.duration := rfl
    have hstall : b.stall .tabuMax b.duration disturbed.bestIteration = b.duration := rfl
    rw [hstrategy, if_neg nofun, hlimit, hstall] at hiterated
    have hduration := hb.duration_pos
    exact Or.inr ⟨rfl, hd.trans hstrategy, by omega⟩

theorem Spending.paced (hr : Spending b run r) (hgo : r.spent < b.depth)
    (h : disturb ctx r = .ok t) : Paced b ctx t ∧ r.spent ≤ t.spent := by
  obtain ⟨prepared, disturbed, draws', record, sum, hprepared, hphase, hsum, rfl⟩ :=
    disturb_eq_ok.1 h
  obtain ⟨hexplore, rfl⟩ := explorePhase_eq_ok.1 hphase
  obtain ⟨hbest₀, hbest₁, ⟨hby, hstrategy, hiterated⟩ | ⟨hby, hstrategy, hiterated⟩⟩ :=
    hr.disturbed hb hprepared hexplore
  · refine ⟨⟨⟨r.sum, _, hr.sum, hsum⟩, ?_, ?_,
      hr.accounts.add rfl rfl rfl hbest₀ hbest₁ (Or.inr rfl), Or.inl ?_⟩, ?_⟩
    · simp [hby, hr.max]
    · simp [hby, hstrategy]
    · show r.spent + disturbed.iterated < b.depth
      omega
    · show r.spent ≤ r.spent + disturbed.iterated
      omega
  · have hduration := hb.duration_pos
    refine ⟨⟨⟨r.sum, _, hr.sum, hsum⟩, ?_, ?_,
      hr.accounts.add rfl rfl rfl hbest₀ hbest₁ (Or.inr rfl),
      Or.inr ⟨?_, _, List.getLast?_concat, hstrategy⟩⟩, ?_⟩
    · simp [hby, hstrategy]
    · simp [hby, hr.shaker]
    · show r.spent + disturbed.iterated ≤ b.depth - 1 + b.duration
      omega
    · show r.spent ≤ r.spent + disturbed.iterated
      omega

/-! ### Whole runs -/

theorem paced_of_reached (h : Reached ctx (Arith.whole b.depth) draws run) : Paced b ctx run := by
  induction h with
  | start h => exact (paced_of_start hb h).1
  | next _ hgo hr hgo' ht ih =>
    have hr := ih.spending hb (lt_whole_eq_true.1 hgo) hr
    exact (hr.paced hb (le_whole_eq_false.1 hgo') ht).1

omit [Counting α] hb in
theorem alternate_of_not_lt {depth : α} (h : Comparable.lt (Arith.whole run.spent) depth = .ok false)
    (n : Nat) : alternate ctx depth n run = .ok run := by
  cases n with
  | zero => exact alternate_zero_eq_ok.2 ⟨h, rfl⟩
  | succ n => exact alternate_succ_eq_ok.2 (Or.inl ⟨h, rfl⟩)

omit [Counting α] hb in
theorem alternate_succ_of_lt {depth : α} (h : Comparable.lt (Arith.whole run.spent) depth = .ok true)
    (n : Nat) : alternate ctx depth (n + 1) run = (do
      let r ← searchPhase ctx run
      if ← Comparable.le depth (Arith.whole r.spent) then return r
      let t ← disturb ctx r
      alternate ctx depth n t) := by
  rw [alternate, h]
  rfl

/-- More fuel than the budget changes nothing: the loop ends, or is refused, without it. -/
theorem Paced.alternate_eq (hp : Paced b ctx run) {m n : Nat} (hm : b.depth ≤ run.spent + m)
    (hmn : m ≤ n) : alternate ctx (Arith.whole b.depth) n run =
      alternate ctx (Arith.whole b.depth) m run := by
  induction m generalizing run n with
  | zero =>
    have hstop := lt_whole_eq_false (α := α).2 (show b.depth ≤ run.spent by omega)
    rw [alternate_of_not_lt hstop, alternate_of_not_lt hstop]
  | succ m ih =>
    obtain ⟨n, rfl⟩ : ∃ k, n = k + 1 := ⟨n - 1, by omega⟩
    by_cases hgo : run.spent < b.depth
    · rw [alternate_succ_of_lt (lt_whole_eq_true.2 hgo), alternate_succ_of_lt (lt_whole_eq_true.2 hgo)]
      rcases hr : searchPhase ctx run with e | r
      · rfl
      have hspending := hp.spending hb hgo hr
      simp only [ok_bind]
      by_cases hstop : b.depth ≤ r.spent
      · rw [le_whole_eq_true.2 hstop]
        rfl
      · rw [le_whole_eq_false.2 (Int.not_le.1 hstop)]
        rcases ht : disturb ctx r with e | t
        · rfl
        obtain ⟨hpaced, hle⟩ := hspending.paced hb (Int.not_le.1 hstop) ht
        have hprogress := hspending.progress
        exact ih hpaced (by omega) (by omega)
    · have hstop := lt_whole_eq_false (α := α).2 (Int.not_lt.1 hgo)
      rw [alternate_of_not_lt hstop, alternate_of_not_lt hstop]

end Phases

end Run

/-- The iterations of a result are those of its phases. They reach the depth, and go beyond it at
most by a last Max phase that has begun below it. -/
structure Result.WithinBudget (result : Result α) (depth duration : Int) : Prop where
  iterations : result.iterations = (result.phases.map PhaseRecord.iterations).sum
  spent : depth ≤ result.iterations
  overrun : result.iterations ≤ depth - 1 + duration
  last : ∃ record, result.phases.getLast? = some record ∧
    ((record.strategy = .tabuSum ∧ result.iterations = depth) ∨ record.strategy = .tabuMax)
  best : 0 ≤ result.bestIteration ∧ result.bestIteration ≤ result.iterations

theorem withinBudget_of_ends (hb : b.Fund ctx) {run : Run α} {result : Result α}
    (h : Run.Ends ctx (Arith.whole b.depth) draws run) (hresult : result.Reports run) :
    result.WithinBudget b.depth b.duration := by
  have hduration := hb.duration_pos
  obtain ⟨-, -, hiterations, hbest, hphases, -⟩ := hresult
  rcases h with ⟨h, hstop⟩ | ⟨h, hgo, hr, hstop⟩
  · obtain ⟨-, -, -, haccounts, hbudget⟩ := Run.paced_of_reached hb h
    have hspent := lt_whole_eq_false.1 hstop
    obtain ⟨hoverrun, record, hlast, hmax⟩ := hbudget.resolve_left (Int.not_lt.2 hspent)
    constructor
    · rw [hiterations, hphases]
      exact haccounts.spent
    · omega
    · omega
    · exact ⟨record, hphases ▸ hlast, Or.inr hmax⟩
    · rw [hbest, hiterations]
      exact ⟨haccounts.best_nonneg, haccounts.best_le⟩
  · obtain ⟨-, -, -, haccounts, -, hbudget, record, hlast, hsum⟩ :=
      (Run.paced_of_reached hb h).spending hb (lt_whole_eq_true.1 hgo) hr
    have hdepth := Int.le_antisymm hbudget (le_whole_eq_true.1 hstop)
    constructor
    · rw [hiterations, hphases]
      exact haccounts.spent
    · omega
    · omega
    · exact ⟨record, hphases ▸ hlast, Or.inl ⟨hsum, hiterations.trans hdepth⟩⟩
    · rw [hbest, hiterations]
      exact ⟨haccounts.best_nonneg, haccounts.best_le⟩

/-- Whatever fuel the loops of a search have beyond their own, it changes nothing: they end, or are
refused, without it. -/
structure Context.Halts (ctx : Context α) (draws : Draws α) : Prop where
  phase : ∀ (s t : State α) source (spent : Int) n,
    (State.prepare ctx source (Arith.whole spent)).apply s = .ok t →
    State.iterationsLeft t.opened ≤ n →
    (State.iterateWhile ctx n).runOn t.opened =
      (State.iterateWhile ctx (State.iterationsLeft t.opened)).runOn t.opened
  run : ∀ depth run n, ctx.searchDepth = .ok depth → Run.start ctx draws = .ok run →
    2 * Arith.horizon depth + 2 ≤ n →
    Run.alternate ctx depth n run = Run.alternate ctx depth (2 * Arith.horizon depth + 2) run

theorem halts_of_fund (hb : b.Fund ctx) : ctx.Halts draws := by
  constructor
  · intro s t source spent n ht hn
    have htimed := (State.timed_of_prepare hb.toAllot ht).1.of_clock (t := t.opened) rfl
    exact htimed.iterateWhile_eq hb.toAllot htimed.le_iterationsLeft hn
  · intro depth run n hdepth hstart hn
    obtain rfl := Except.ok.inj (hb.depth.symm.trans hdepth)
    obtain ⟨hpaced, hspent⟩ := Run.paced_of_start hb hstart
    refine hpaced.alternate_eq hb ?_ hn
    rw [hspent, horizon_whole]
    omega

theorem withinBudget_of_optimize (hb : b.Fund ctx) (hne : ctx.original ≠ []) {result : Result α}
    (h : ctx.optimize draws = .ok (result, rest))
    (hpositive : Comparable.le result.initialError (Arith.whole 0) = .ok false) :
    result.WithinBudget b.depth b.duration := by
  obtain ⟨depth, run₀, hdepth, hstart, -, ⟨hdone, -⟩ | ⟨-, run, hrun, hreports⟩⟩ :=
    optimize_eq_ok hne h
  · exact nomatch hpositive.symm.trans hdone
  · obtain rfl := Except.ok.inj (hb.depth.symm.trans hdepth)
    exact withinBudget_of_ends hb (Run.ends_of_alternate (.start hstart) hrun) hreports

open Exact in
/-- With budgets that are whole numbers every search ends, and its result keeps within the budget if
there are errors to lower: in exact arithmetic for every palette in range, and in any numbers that
count exactly for every result that it has. -/
theorem optimize_withinBudget :
    (∀ (palette : Palette ℝ) (d : Deficiency) (settings : Settings ℝ) (draws : Draws ℝ)
      (depth stalling duration : ℤ),
      palette.InRange → settings.validate = .ok () → 0 ≤ settings.zeroDistanceThreshold →
      settings.depthPerColor = depth → settings.stallingPeriod = stalling →
      settings.maxModeDuration = duration →
      ∃ result rest, optimize palette d settings draws = .ok (result, rest) ∧
        (0 < result.initialError →
          result.WithinBudget (depth * palette.length) (duration * palette.length))) ∧
    (∀ (α : Type) [ColorArith α] [Counting α] (ctx : Context α) (draws : Draws α)
      (depth stalling duration : ℤ),
      ctx.settings.depthPerColor = Arith.whole depth →
      ctx.settings.stallingPeriod = Arith.whole stalling →
      ctx.settings.maxModeDuration = Arith.whole duration →
      0 < depth → 0 < stalling → 0 < duration → ctx.original ≠ [] →
      ctx.Halts draws ∧ ∀ result rest, ctx.optimize draws = .ok (result, rest) →
        Comparable.le result.initialError (Arith.whole 0) = .ok false →
        result.WithinBudget (depth * ctx.size) (duration * ctx.size)) := by
  constructor
  · intro palette d settings draws depth stalling duration hpalette hsettings hthreshold hdepth
      hstalling hduration
    obtain ⟨ctx, hctx, hregular, hlinear, -, rfl⟩ := exists_ofGamma hpalette d hthreshold
    obtain ⟨result, rest, hresult⟩ := exists_optimize_of_validate hregular hsettings draws
    rw [optimize_eq hsettings hctx]
    refine ⟨result, rest, hresult, fun hpositive => ?_⟩
    have hsize : palette.length = ctx.size := (mapM_eq_ok_iff.1 hlinear).length_eq
    have hne : ctx.original ≠ [] := by
      intro hnil
      rw [(unsearched_of_isEmpty hnil hresult).2, decimal_zero] at hpositive
      exact lt_irrefl 0 hpositive
    obtain ⟨hdepth₀, hstalling₀, hduration₀, -⟩ := validate_eq_ok_iff.1 hsettings
    rw [hdepth, Int.cast_pos] at hdepth₀
    rw [hstalling, Int.cast_pos] at hstalling₀
    rw [hduration, Int.cast_pos] at hduration₀
    rw [hsize]
    exact withinBudget_of_optimize (Budgets.fund_of_perColor hne hdepth hstalling hduration hdepth₀
      hstalling₀ hduration₀) hne hresult (not_le_zero hpositive)
  · intro α _ _ ctx draws depth stalling duration hdepth hstalling hduration hdepth₀ hstalling₀
      hduration₀ hne
    have hb := Budgets.fund_of_perColor hne hdepth hstalling hduration hdepth₀ hstalling₀ hduration₀
    exact ⟨halts_of_fund hb, fun result rest h => withinBudget_of_optimize hb hne h⟩

open Exact in
/-- The standard budgets of 4000 iterations for each of two colours, and of 4 for a Max phase. -/
theorem optimize_withinBudget_greens :
    ∃ (ctx : Context ℝ) (settings : Settings ℝ) (draws rest : Draws ℝ) (result : Result ℝ),
      settings.validate = .ok () ∧ 0 ≤ settings.zeroDistanceThreshold ∧
      settings.depthPerColor = (4000 : ℤ) ∧ settings.stallingPeriod = (8 : ℤ) ∧
      settings.maxModeDuration = (4 : ℤ) ∧
      Context.ofGamma [[0, 255, 0], [0, 255, 1]] .red settings = .ok ctx ∧
      optimize [[0, 255, 0], [0, 255, 1]] .red settings draws = .ok (result, rest) ∧
      0 < result.initialError ∧ ctx.Halts draws ∧ result.WithinBudget 8000 8 := by
  let settings : Settings ℝ := { Settings.standard with zeroDistanceThreshold := 0 }
  let draws : Draws ℝ := .sequence (fun _ => 1 / 2) 0
  have hsettings : settings.validate = .ok () :=
    validate_eq_ok_iff.2 (validate_eq_ok_iff.1 validate_standard)
  obtain ⟨ctx, hctx, -, hfunded, -, hset, hpositive⟩ := exists_greens hsettings rfl
  obtain ⟨result, rest, hresult, hwithin⟩ := optimize_withinBudget.1 [[0, 255, 0], [0, 255, 1]] .red
    settings draws 4000 8 4 Palette.inRange_greens hsettings le_rfl rfl rfl rfl
  have hpositive := hpositive draws result rest (optimize_eq hsettings hctx draws ▸ hresult)
  have hhalts := (optimize_withinBudget.2 ℝ ctx draws 4000 8 4 (hset ▸ rfl) (hset ▸ rfl)
    (hset ▸ rfl) (by norm_num) (by norm_num) (by norm_num)
    (List.ne_nil_of_length_pos hfunded.size)).1
  exact ⟨ctx, settings, draws, rest, result, hsettings, le_rfl, rfl, rfl, rfl, hctx, hresult,
    hpositive, hhalts, hwithin hpositive⟩

end Dichromat
