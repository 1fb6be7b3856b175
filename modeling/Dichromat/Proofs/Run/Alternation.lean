import Dichromat.Proofs.Run.Passage
import Dichromat.Proofs.Search.Serving

/-!
# The protocol of a run

Where the budgets are whole numbers, the phases of every run keep the protocol
(`Run.logged_of_course`), however its draws come out and wherever it stops, and no state that it
explores is refused (`Run.prepared_of_faces`). The loop keeps two conditions in turn: before a Sum
phase its state is freshly prepared from the best palette of the last phase (`Run.Opens`), and after
it the state holds the best palette of this phase (`Run.Closes`). How many phases there have been
says which disturbance comes next. In exact arithmetic the palette that a shake starts from is the
one with the least error so far (`Exact.exists_isBest`).
-/

namespace Dichromat

variable {α : Type} [ColorArith α] {ctx : Context α} {b : Budgets} {draws rest : Draws α}

namespace Run

variable {ps : List (Passage α)} {p : Passage α} {run r t : Run α}

/-! ### What the loop keeps -/

/-- What a run knows of the phases that it has been through. -/
structure Logged (ctx : Context α) (b : Budgets) (ps : List (Passage α)) (run : Run α) : Prop where
  phases : run.phases = ps.map Passage.record
  leader : Passage.leader ctx.original ps = .ok (run.bestError, run.bestPalette)
  protocol : Passage.Protocol ctx b ps

/-- Before a Sum phase; it is the first one or follows a Max phase or a shake. -/
structure Opens (ctx : Context α) (b : Budgets) (ps : List (Passage α)) (run : Run α) : Prop where
  logged : Logged ctx b ps run
  paced : Paced b ctx run
  sum : ∃ s, s.projector.Serves ctx.deficiency ∧ s.strategy = .tabuSum ∧
    (State.prepare ctx (Passage.lastBest ctx.original ps) (Arith.whole run.spent)).apply s =
      .ok run.sum
  even : ps.length % 2 = 0
  turn : run.disturbedByMax = decide (ps.length % 4 = 2)

/-- After a Sum phase; a Max phase comes next, or a shake. -/
structure Closes (ctx : Context α) (b : Budgets) (ps : List (Passage α)) (run : Run α) :
    Prop where
  logged : Logged ctx b ps run
  spending : ∃ before, Spending b before run
  serves : run.sum.projector.Serves ctx.deficiency
  last : Passage.lastBest ctx.original ps = run.sum.bestPalette
  odd : ps.length % 2 = 1
  turn : run.disturbedByMax = decide (ps.length % 4 = 3)

theorem Logged.adds (h : Logged ctx b ps run) (hr : Adds ctx run p r)
    (hp : p.Follows ctx b ps) : Logged ctx b (ps ++ [p]) r := by
  constructor
  · simp [hr.phases, h.phases]
  · rw [Passage.leader_concat, h.leader, ok_bind, hr.best]
  · exact h.protocol.concat hp

variable [Counting α]

section Loop

variable (hb : b.Fund ctx)

include hb

omit [Counting α] in
theorem opens_of_start (h : start ctx draws = .ok run) : Opens ctx b [] run := by
  have hpaced := (paced_of_start hb h).1
  unfold start at h
  obtain ⟨sum, hsum, h⟩ := bind_eq_ok.1 h
  obtain rfl := pure_eq_ok.1 h
  exact ⟨⟨rfl, rfl, Passage.protocol_nil⟩, hpaced, ⟨_, Projector.serves_ofDeficiency _, rfl, hsum⟩,
    rfl, rfl⟩

/-- A Sum phase spends some of the budget, from the best palette of the last phase on. -/
theorem Opens.searched (h : Opens ctx b ps run) (hgo : run.spent < b.depth)
    (hr : searchPhase ctx run = .ok r) : Closes ctx b (ps ++ [sumPassage run r]) r := by
  obtain ⟨s, hserves, hstrategy, hs⟩ := h.sum
  have hsum : run.sum.strategy = .tabuSum := (State.strategy_of_prepare hs).trans hstrategy
  obtain ⟨hphase, hpalette⟩ := State.phase_of_prepare hs
  obtain ⟨e, he, herror⟩ := State.paletteError_of_prepare hserves hs
  obtain ⟨hadds, hspent, hby⟩ := adds_of_searchPhase hsum hr
  have hspending := h.paced.spending hb hgo hr
  have hbefore : iterationsOf (ps.map Passage.record) = run.spent := by
    rw [← h.logged.phases]
    exact h.paced.accounts.spent.symm
  have hfollows : (sumPassage run r).Follows ctx b ps := by
    refine ⟨hphase, hadds.explored, ?_, fun _ => ⟨?_, ?_, hpalette, e, he, ?_⟩, ?_, ?_⟩
    · exact hspending.sum.trans (Strategy.inTurn_of_even h.even).symm
    · have hprogress := hspending.progress
      show 1 ≤ r.sum.iterated
      omega
    · have hbudget := hspending.budget
      show r.sum.iterated ≤ b.depth - iterationsOf (ps.map Passage.record)
      omega
    · rw [hstrategy] at herror
      exact hpalette.symm ▸ herror
    · exact fun hmax => absurd (hspending.sum.symm.trans hmax) (by decide)
    · exact fun hshake => absurd (hspending.sum.symm.trans hshake) (by decide)
  have heven := h.even
  refine ⟨h.logged.adds hadds hfollows, ⟨run, hspending⟩, ?_, by simp [sumPassage], ?_, ?_⟩
  · obtain ⟨hexplore, -⟩ := explorePhase_eq_ok.1 hadds.explored
    obtain ⟨-, ⟨hshake, -⟩ | ⟨-, htabu, -⟩⟩ := State.explore_eq_ok.1 hexplore
    · exact absurd (hsum.symm.trans hshake) (by decide)
    · exact State.preserves_exploreTabu.apply (State.coherent_of_prepare hserves hs).projector htabu
  · simp
    omega
  · rw [hby, h.turn, List.length_append, List.length_singleton]
    exact decide_eq_decide.2 (by omega)

/-- A Max phase starts from the best palette of the Sum phase, a shake from that of the run. -/
theorem Closes.follows {prepared : State α} (h : Closes ctx b ps r)
    (hprepared : disturber ctx r = .ok prepared)
    (hexplore : (State.explore ctx).apply (prepared, r.draws) = .ok (t.disturbed, t.draws)) :
    (disturbance prepared r t).Follows ctx b ps ∧ t.disturbed.strategy ≠ .tabuSum := by
  obtain ⟨before, hspending⟩ := h.spending
  have hexplored : explorePhase ctx prepared r.draws =
      .ok (t.disturbed, t.draws, (disturbance prepared r t).record) :=
    explorePhase_eq_ok.2 ⟨hexplore, rfl⟩
  have hodd := h.odd
  have hturn := h.turn
  obtain ⟨hphase, hpalette⟩ := State.phase_of_prepare (disturber_eq.symm.trans hprepared)
  rcases (hspending.disturbed hb hprepared hexplore).2.2 with
    ⟨hby, hstrategy, hiterated⟩ | ⟨hby, hstrategy, hiterated⟩
  · rw [hby, if_pos rfl] at hpalette
    have hplace : ps.length % 4 = 3 := of_decide_eq_true (hturn.symm.trans hby)
    refine ⟨⟨hphase, hexplored, ?_, fun hs => ?_, fun hs => ?_, fun _ => ⟨hiterated, ?_⟩⟩,
      hstrategy.trans_ne (by decide)⟩
    · exact hstrategy.trans (by simp [Strategy.inTurn, hplace])
    · exact absurd (hstrategy.symm.trans hs) (by decide)
    · exact absurd (hstrategy.symm.trans hs) (by decide)
    · exact ⟨r.bestError, hpalette.symm ▸ h.logged.leader⟩
  · rw [hby, if_neg Bool.false_ne_true] at hpalette
    have hplace : ps.length % 4 = 1 := by
      have hthree : ¬ ps.length % 4 = 3 := of_decide_eq_false (hturn.symm.trans hby)
      omega
    refine ⟨⟨hphase, hexplored, ?_, fun hs => ?_, fun _ => ⟨hiterated, ?_⟩, fun hs => ?_⟩,
      hstrategy.trans_ne (by decide)⟩
    · exact hstrategy.trans (by simp [Strategy.inTurn, hplace])
    · exact absurd (hstrategy.symm.trans hs) (by decide)
    · exact hpalette.trans h.last.symm
    · exact absurd (hstrategy.symm.trans hs) (by decide)

theorem Closes.disturbed {prepared : State α} (h : Closes ctx b ps r) (hgo : r.spent < b.depth)
    (hprepared : disturber ctx r = .ok prepared) (ht : disturb ctx r = .ok t) :
    Opens ctx b (ps ++ [disturbance prepared r t]) t := by
  obtain ⟨before, hspending⟩ := h.spending
  obtain ⟨hby, hsum, hexplore, hadds⟩ := adds_of_disturb hprepared ht
  obtain ⟨hfollows, hne⟩ := h.follows hb hprepared hexplore
  have hodd := h.odd
  refine ⟨h.logged.adds (hadds hne) hfollows, (hspending.paced hb hgo ht).1,
    ⟨r.sum, h.serves, hspending.sum, ?_⟩, ?_, ?_⟩
  · rw [Passage.lastBest_concat]
    exact hsum
  · simp
    omega
  · rw [hby, h.turn, List.length_append, List.length_singleton, ← decide_not]
    exact decide_eq_decide.2 (by omega)

/-! ### Whole runs -/

/-- What the loop keeps where it stands. -/
def Abides (ctx : Context α) (b : Budgets) : Stage → List (Passage α) → Run α → Prop
  | .search => Opens ctx b
  | .disturb => Closes ctx b

theorem abides_of_course {stage : Stage}
    (h : Course ctx (Arith.whole b.depth) draws stage ps run) : Abides ctx b stage ps run := by
  induction h with
  | start h => exact opens_of_start hb h
  | searched _ hgo hr ih => exact ih.searched hb (lt_whole_eq_true.1 hgo) hr
  | disturbed _ hgo hprepared ht ih => exact ih.disturbed hb (le_whole_eq_false.1 hgo) hprepared ht

theorem logged_of_course {stage : Stage}
    (h : Course ctx (Arith.whole b.depth) draws stage ps run) : Logged ctx b ps run := by
  have habides := abides_of_course hb h
  cases stage with
  | search => exact habides.logged
  | disturb => exact habides.logged

/-- Every state that a run explores has been prepared for it. -/
theorem prepared_of_faces {stage : Stage} {s : State α}
    (h : Course ctx (Arith.whole b.depth) draws stage ps run)
    (hs : Faces ctx (Arith.whole b.depth) stage run s) : s.phase = .prepared := by
  cases hs with
  | sum _ =>
    obtain ⟨_, -, -, hs⟩ := (abides_of_course hb h : Opens ctx b ps run).sum
    exact (State.phase_of_prepare hs).1
  | disturber _ hs => exact (State.phase_of_prepare (disturber_eq.symm.trans hs)).1

end Loop

end Run

/-! ### Results -/

/-- The phases of a result are those that its run has been through, at least one, and they keep the
protocol. -/
structure Result.Alternates (result : Result α) (ctx : Context α) (b : Budgets) (draws : Draws α)
    (ps : List (Passage α)) : Prop where
  course : ∃ stage run,
    Run.Course ctx (Arith.whole b.depth) draws stage ps run ∧ result.Reports run
  phases : result.phases = ps.map Passage.record
  nonempty : ps ≠ []
  protocol : Passage.Protocol ctx b ps

theorem exists_alternates [Counting α] (hb : b.Fund ctx) (hne : ctx.original ≠ [])
    {result : Result α} (h : ctx.optimize draws = .ok (result, rest))
    (hpositive : Comparable.le result.initialError (Arith.whole 0) = .ok false) :
    ∃ ps, result.Alternates ctx b draws ps := by
  obtain ⟨depth, run₀, hdepth, hstart, -, ⟨hdone, -⟩ | ⟨-, run, hrun, hreports⟩⟩ :=
    optimize_eq_ok hne h
  · exact nomatch hpositive.symm.trans hdone
  · obtain rfl := Except.ok.inj (hb.depth.symm.trans hdepth)
    obtain ⟨stage, ps, hcourse⟩ :=
      Run.exists_course_of_ends (Run.ends_of_alternate (.start hstart) hrun)
    have hlogged := Run.logged_of_course hb hcourse
    have hphases : result.phases = ps.map Passage.record := hreports.phases.trans hlogged.phases
    refine ⟨ps, ⟨stage, run, hcourse, hreports⟩, hphases, fun hnil => ?_, hlogged.protocol⟩
    -- a run that has spent its budget has been through a phase
    obtain ⟨record, hlast, -⟩ := (withinBudget_of_optimize hb hne h hpositive).last
    simp [hphases, hnil] at hlast

/-! ### The best palette before a shake -/

namespace Exact

/-- Among some phases, a Sum phase has found the palette with the error `e`, and none has found one
with less. -/
structure IsBest (ps : List (Passage ℝ)) (e : ℝ) (palette : List (Triple ℝ)) : Prop where
  found : ∃ p ∈ ps, p.record.strategy = .tabuSum ∧ p.record.errorAfter = some e ∧
    p.ended.bestPalette = palette
  least : ∀ p ∈ ps, p.record.strategy = .tabuSum → ∃ e', p.record.errorAfter = some e' ∧ e ≤ e'

variable {ps : List (Passage ℝ)} {p : Passage ℝ} {e e' : ℝ} {palette original : List (Triple ℝ)}

/-- A phase that has found nothing better. -/
theorem IsBest.concat (h : IsBest ps e palette)
    (hp : p.record.strategy = .tabuSum → ∃ e', p.record.errorAfter = some e' ∧ e ≤ e') :
    IsBest (ps ++ [p]) e palette := by
  obtain ⟨⟨q, hq, hfound⟩, hleast⟩ := h
  exact ⟨⟨q, List.mem_append_left _ hq, hfound⟩,
    List.forall_mem_append.2 ⟨hleast, List.forall_mem_singleton.2 hp⟩⟩

/-- A Sum phase that has found a better palette than all before it. -/
theorem isBest_of_better (hp : p.record.strategy = .tabuSum) (he : p.record.errorAfter = some e)
    (h : ∀ q ∈ ps, q.record.strategy = .tabuSum → ∃ e', q.record.errorAfter = some e' ∧ e ≤ e') :
    IsBest (ps ++ [p]) e p.ended.bestPalette :=
  ⟨⟨p, List.mem_append_right _ (List.mem_singleton_self _), hp, he, rfl⟩,
    List.forall_mem_append.2 ⟨h, List.forall_mem_singleton.2 fun _ => ⟨e, he, le_rfl⟩⟩⟩

/-- Where there has been a Sum phase, the leader of all phases is the best one of them. -/
theorem isBest_of_leader {best : Option ℝ × List (Triple ℝ)}
    (herr : ∀ p ∈ ps, p.record.strategy = .tabuSum → ∃ e, p.record.errorAfter = some e)
    (h : Passage.leader original ps = .ok best) :
    (best.1 = none ∧ ∀ p ∈ ps, p.record.strategy ≠ .tabuSum) ∨
      ∃ e, best.1 = some e ∧ IsBest ps e best.2 := by
  induction ps using List.reverseRecOn generalizing best with
  | nil =>
    rw [Passage.leader_nil, Except.ok.injEq] at h
    subst h
    exact Or.inl ⟨rfl, by simp⟩
  | append_singleton ps p ih =>
    rw [Passage.leader_concat, bind_eq_ok] at h
    obtain ⟨before, hbefore, h⟩ := h
    have hold := ih (fun q hq => herr q (List.mem_append_left _ hq)) hbefore
    by_cases hp : p.record.strategy = .tabuSum
    · obtain ⟨a, ha⟩ := herr p (List.mem_append_right _ (List.mem_singleton_self _)) hp
      have ha' : p.ended.bestError = some a := ha
      have hbetter (himproves : Run.improves p.ended.bestError before.1 = .ok true) :
          best = (some a, p.ended.bestPalette) := by
        rw [Passage.overtake_of_better hp himproves, Except.ok.injEq, ha'] at h
        exact h.symm
      rcases hold with ⟨hnone, hno⟩ | ⟨e, he, hbest⟩
      · obtain rfl := hbetter (by rw [ha', hnone]; rfl)
        exact Or.inr ⟨a, rfl, isBest_of_better hp ha fun q hq hsum => absurd hsum (hno q hq)⟩
      · have himproves : Run.improves p.ended.bestError before.1 = .ok (decide (a < e)) := by
          rw [ha', he]
          rfl
        rcases lt_or_ge a e with hlt | hge
        · rw [decide_eq_true hlt] at himproves
          obtain rfl := hbetter himproves
          refine Or.inr ⟨a, rfl, isBest_of_better hp ha fun q hq hsum => ?_⟩
          obtain ⟨e', he', hle⟩ := hbest.least q hq hsum
          exact ⟨e', he', hlt.le.trans hle⟩
        · rw [decide_eq_false (not_lt.2 hge)] at himproves
          rw [Passage.overtake_of_kept hp himproves, Except.ok.injEq] at h
          subst h
          exact Or.inr ⟨e, he, hbest.concat fun _ => ⟨a, ha, hge⟩⟩
    · rw [Passage.overtake_of_ne hp, Except.ok.injEq] at h
      subst h
      rcases hold with ⟨hnone, hno⟩ | ⟨e, he, hbest⟩
      · exact Or.inl ⟨hnone, List.forall_mem_append.2 ⟨hno, List.forall_mem_singleton.2 hp⟩⟩
      · exact Or.inr ⟨e, he, hbest.concat fun hsum => absurd hsum hp⟩

/-- A shake of a run starts from the palette with the least error of all Sum phases before it. -/
theorem exists_isBest {ctx : Context ℝ} {b : Budgets} {before after : List (Passage ℝ)}
    (h : Passage.Protocol ctx b (before ++ p :: after)) (hp : p.record.strategy = .shake) :
    ∃ e, IsBest before e p.prepared.palette := by
  have hfollows := h before p after rfl
  obtain ⟨-, e, hleader⟩ := hfollows.shake hp
  have herr : ∀ q ∈ before, q.record.strategy = .tabuSum → ∃ e, q.record.errorAfter = some e := by
    intro q hq hsum
    obtain ⟨_, hq⟩ := h.follows_of_mem (List.mem_append_left _ hq)
    exact hq.exists_errorAfter hsum
  rcases isBest_of_leader herr hleader with ⟨-, hno⟩ | ⟨e, -, hbest⟩
  · -- the first phase of all is a Sum phase
    rcases before with _ | ⟨first, before⟩
    · exact nomatch hp.symm.trans hfollows.strategy
    · exact absurd (h [] first _ rfl).strategy (hno first List.mem_cons_self)
  · exact ⟨e, hbest⟩

/-- Settings that pass their check, with budgets that are whole numbers, fund a search. -/
theorem fund_of_validate {ctx : Context ℝ} (hne : ctx.original ≠ [])
    (h : ctx.settings.validate = .ok ()) {depth stalling duration : ℤ}
    (hdepth : ctx.settings.depthPerColor = depth) (hstalling : ctx.settings.stallingPeriod = stalling)
    (hduration : ctx.settings.maxModeDuration = duration) :
    Budgets.Fund ⟨depth * ctx.size, stalling * ctx.size, duration * ctx.size⟩ ctx := by
  obtain ⟨hdepth₀, hstalling₀, hduration₀, -⟩ := validate_eq_ok_iff.1 h
  rw [hdepth, Int.cast_pos] at hdepth₀
  rw [hstalling, Int.cast_pos] at hstalling₀
  rw [hduration, Int.cast_pos] at hduration₀
  exact Budgets.fund_of_perColor hne hdepth hstalling hduration hdepth₀ hstalling₀ hduration₀

/-- A result with errors to lower is that of a palette with colours. -/
theorem original_ne_nil {ctx : Context ℝ} {draws rest : Draws ℝ} {result : Result ℝ}
    (h : ctx.optimize draws = .ok (result, rest)) (hpositive : 0 < result.initialError) :
    ctx.original ≠ [] := by
  intro hnil
  rw [(unsearched_of_isEmpty hnil h).2, decimal_zero] at hpositive
  exact lt_irrefl 0 hpositive

end Exact

open Exact in
/-- With budgets that are whole numbers the phases of every run keep the protocol if there are
errors to lower, and no state that a run explores is refused: in exact arithmetic every search of a
palette in range goes through such phases up to its result, and a shake begins with the least error
so far; in any numbers that count exactly, every run does, as far as it gets. -/
theorem optimize_alternates :
    (∀ (palette : Palette ℝ) (d : Deficiency) (settings : Settings ℝ) (draws : Draws ℝ)
      (depth stalling duration : ℤ),
      palette.InRange → settings.validate = .ok () → 0 ≤ settings.zeroDistanceThreshold →
      settings.depthPerColor = depth → settings.stallingPeriod = stalling →
      settings.maxModeDuration = duration →
      ∃ ctx result rest, Context.ofGamma palette d settings = .ok ctx ∧
        optimize palette d settings draws = .ok (result, rest) ∧
        (0 < result.initialError → ∃ ps,
          result.Alternates ctx ⟨depth * palette.length, stalling * palette.length,
            duration * palette.length⟩ draws ps ∧
          ∀ before p after, ps = before ++ p :: after → p.record.strategy = .shake →
            ∃ e, IsBest before e p.prepared.palette)) ∧
    (∀ (α : Type) [ColorArith α] [Counting α] (ctx : Context α) (draws : Draws α)
      (depth stalling duration : ℤ),
      ctx.settings.depthPerColor = Arith.whole depth →
      ctx.settings.stallingPeriod = Arith.whole stalling →
      ctx.settings.maxModeDuration = Arith.whole duration →
      0 < depth → 0 < stalling → 0 < duration → ctx.original ≠ [] →
      (∀ stage ps run,
        Run.Course ctx (Arith.whole (depth * ctx.size)) draws stage ps run →
        Passage.Protocol ctx ⟨depth * ctx.size, stalling * ctx.size, duration * ctx.size⟩ ps ∧
        ∀ s, Run.Faces ctx (Arith.whole (depth * ctx.size)) stage run s → s.phase = .prepared) ∧
      ∀ result rest, ctx.optimize draws = .ok (result, rest) →
        Comparable.le result.initialError (Arith.whole 0) = .ok false →
        ∃ ps, result.Alternates ctx ⟨depth * ctx.size, stalling * ctx.size, duration * ctx.size⟩
          draws ps) := by
  constructor
  · intro palette d settings draws depth stalling duration hpalette hsettings hthreshold hdepth
      hstalling hduration
    obtain ⟨ctx, hctx, hregular, hlinear, -, rfl⟩ := exists_ofGamma hpalette d hthreshold
    obtain ⟨result, rest, hresult⟩ := exists_optimize_of_validate hregular hsettings draws
    rw [optimize_eq hsettings hctx]
    refine ⟨ctx, result, rest, hctx, hresult, fun hpositive => ?_⟩
    have hne := original_ne_nil hresult hpositive
    have hsize : palette.length = ctx.size := (mapM_eq_ok_iff.1 hlinear).length_eq
    have hb := fund_of_validate hne hsettings hdepth hstalling hduration
    obtain ⟨ps, hps⟩ := exists_alternates hb hne hresult (not_le_zero hpositive)
    rw [hsize]
    refine ⟨ps, hps, fun before p after hsplit hshake => ?_⟩
    exact exists_isBest (hsplit ▸ hps.protocol) hshake
  · intro α _ _ ctx draws depth stalling duration hdepth hstalling hduration hdepth₀ hstalling₀
      hduration₀ hne
    have hb := Budgets.fund_of_perColor hne hdepth hstalling hduration hdepth₀ hstalling₀ hduration₀
    refine ⟨fun stage ps run hcourse => ⟨?_, fun s hs => ?_⟩, fun result rest h => ?_⟩
    · exact (Run.logged_of_course hb hcourse).protocol
    · exact Run.prepared_of_faces hb hcourse hs
    · exact exists_alternates hb hne h

open Exact in
/-- The standard budgets of 4000 iterations for each of two colours, and of 4 for a Max phase. -/
theorem optimize_alternates_greens :
    ∃ (ctx : Context ℝ) (settings : Settings ℝ) (draws rest : Draws ℝ) (result : Result ℝ)
      (ps : List (Passage ℝ)),
      settings.validate = .ok () ∧ 0 ≤ settings.zeroDistanceThreshold ∧
      settings.depthPerColor = (4000 : ℤ) ∧ settings.stallingPeriod = (8 : ℤ) ∧
      settings.maxModeDuration = (4 : ℤ) ∧
      Context.ofGamma [[0, 255, 0], [0, 255, 1]] .red settings = .ok ctx ∧
      optimize [[0, 255, 0], [0, 255, 1]] .red settings draws = .ok (result, rest) ∧
      0 < result.initialError ∧ result.Alternates ctx ⟨8000, 16, 8⟩ draws ps ∧
      ∀ stage ps run, Run.Course ctx (Arith.whole 8000) draws stage ps run →
        ∀ s, Run.Faces ctx (Arith.whole 8000) stage run s → s.phase = .prepared := by
  let settings : Settings ℝ := { Settings.standard with zeroDistanceThreshold := 0 }
  let draws : Draws ℝ := .sequence (fun _ => 1 / 2) 0
  have hsettings : settings.validate = .ok () :=
    validate_eq_ok_iff.2 (validate_eq_ok_iff.1 validate_standard)
  obtain ⟨ctx, hctx, -, hfunded, hsize, hset, hpositive⟩ := exists_greens hsettings rfl
  obtain ⟨ctx', result, rest, hctx', hresult, halternates⟩ := optimize_alternates.1
    [[0, 255, 0], [0, 255, 1]] .red settings draws 4000 8 4 Palette.inRange_greens hsettings le_rfl
    rfl rfl rfl
  obtain rfl := Except.ok.inj (hctx.symm.trans hctx')
  have hpositive := hpositive draws result rest (optimize_eq hsettings hctx draws ▸ hresult)
  obtain ⟨ps, hps, -⟩ := halternates hpositive
  have hcourses := (optimize_alternates.2 ℝ ctx draws 4000 8 4 (hset ▸ rfl) (hset ▸ rfl)
    (hset ▸ rfl) (by norm_num) (by norm_num) (by norm_num)
    (List.ne_nil_of_length_pos hfunded.size)).1
  rw [hsize] at hcourses
  exact ⟨ctx, settings, draws, rest, result, ps, hsettings, le_rfl, rfl, rfl, rfl, hctx, hresult,
    hpositive, hps, fun stage ps run h => (hcourses stage ps run h).2⟩

end Dichromat
