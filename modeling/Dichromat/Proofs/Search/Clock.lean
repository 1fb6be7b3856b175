import Dichromat.Proofs.Counting
import Dichromat.Proofs.Search.Frame
import Dichromat.Proofs.Search.Phase

/-!
# How long a phase lasts

Where the budgets are whole numbers (`Budgets.Allot`), the clock of a state shows whole iterations
within its limits (`State.Timed`), at every iteration of a phase. So a Tabu search ends exactly at
the nearer of them (`State.Timed.exploreTabu`), and more fuel than its budget changes nothing
(`State.Timed.iterateWhile_eq`).
-/

namespace Dichromat

variable {α : Type} [ColorArith α] {ctx : Context α}

/-! ### Budgets -/

/-- Whole numbers of iterations: of a run, of a Sum phase without a better palette, and of a Max
phase. -/
structure Budgets where
  depth : Int
  stalling : Int
  duration : Int

namespace Budgets

/-- The iterations that a phase of a strategy may take, some being spent already. -/
def limit (b : Budgets) (strategy : Strategy) (spent : Int) : Int :=
  match strategy.mode with
  | .sum => b.depth - spent
  | .max => b.duration

/-- The iteration at which a phase ends if no better palette turns up after its best one. -/
def stall (b : Budgets) (strategy : Strategy) (limit best : Int) : Int :=
  if strategy.watchesStalling then best + b.stalling else limit

/-- The budgets of a context in whole iterations. -/
structure Allot (b : Budgets) (ctx : Context α) : Prop where
  depth : ctx.searchDepth = .ok (Arith.whole b.depth)
  stalling : ctx.budget ctx.settings.stallingPeriod = .ok (Arith.whole b.stalling)
  duration : ctx.budget ctx.settings.maxModeDuration = .ok (Arith.whole b.duration)

/-- The budgets of a context in whole iterations, all of them positive. -/
structure Fund (b : Budgets) (ctx : Context α) : Prop extends Allot b ctx where
  depth_pos : 0 < b.depth
  stalling_pos : 0 < b.stalling
  duration_pos : 0 < b.duration

end Budgets

variable [Counting α] {b : Budgets}

/-- Budgets for each colour that are whole numbers. -/
theorem Budgets.allot_of_perColor {depth stalling duration : Int}
    (hdepth : ctx.settings.depthPerColor = Arith.whole depth)
    (hstalling : ctx.settings.stallingPeriod = Arith.whole stalling)
    (hduration : ctx.settings.maxModeDuration = Arith.whole duration) :
    Allot ⟨depth * ctx.size, stalling * ctx.size, duration * ctx.size⟩ ctx := by
  constructor
  · rw [Context.searchDepth, Context.budget, hdepth, mul_whole]
  · rw [Context.budget, hstalling, mul_whole]
  · rw [Context.budget, hduration, mul_whole]

/-- Budgets for each colour that are positive whole numbers. -/
theorem Budgets.fund_of_perColor (hne : ctx.original ≠ []) {depth stalling duration : Int}
    (hdepth : ctx.settings.depthPerColor = Arith.whole depth)
    (hstalling : ctx.settings.stallingPeriod = Arith.whole stalling)
    (hduration : ctx.settings.maxModeDuration = Arith.whole duration)
    (hdepth₀ : 0 < depth) (hstalling₀ : 0 < stalling) (hduration₀ : 0 < duration) :
    Fund ⟨depth * ctx.size, stalling * ctx.size, duration * ctx.size⟩ ctx := by
  have hsize : (0 : Int) < ctx.size := Int.natCast_pos.2 (List.length_pos_of_ne_nil hne)
  exact ⟨allot_of_perColor hdepth hstalling hduration, Int.mul_pos hdepth₀ hsize,
    Int.mul_pos hstalling₀ hsize, Int.mul_pos hduration₀ hsize⟩

namespace State

variable {s t r : State α} {limit : Int} {draws rest : Draws α}

/-! ### The clock of a state -/

/-- A state whose clock shows whole iterations, none of them beyond the limits. -/
structure Timed (b : Budgets) (limit : Int) (s : State α) : Prop where
  maxIterations : s.maxIterations = Arith.whole limit
  stallLimit : s.stallLimit = Arith.whole (b.stall s.strategy limit s.bestIteration)
  best_nonneg : 0 ≤ s.bestIteration
  best_le : s.bestIteration ≤ s.iterated
  iterated_le : s.iterated ≤ max 0 (min limit (b.stall s.strategy limit s.bestIteration))

omit [Counting α] in
theorem Timed.of_clock (hs : Timed b limit s) (h : t.clock = s.clock) : Timed b limit t := by
  obtain ⟨hstrategy, hiterated, hbest, hmax, hstall⟩ := by
    simpa only [clock, Prod.mk.injEq] using h
  constructor
  · rw [hmax, hs.maxIterations]
  · rw [hstall, hs.stallLimit, hstrategy, hbest]
  · exact hbest ▸ hs.best_nonneg
  · exact hbest ▸ hiterated ▸ hs.best_le
  · rw [hiterated, hstrategy, hbest]
    exact hs.iterated_le

theorem iterationLimit_whole (hb : b.Allot ctx) (strategy : Strategy) (spent : Int) :
    iterationLimit ctx strategy (Arith.whole spent) = .ok (Arith.whole (b.limit strategy spent)) := by
  unfold iterationLimit Budgets.limit
  cases strategy.mode with
  | sum => simp only [hb.depth, ok_bind, sub_whole]
  | max => exact hb.duration

/-- The limit that a state has after its best palette was found right now. -/
theorem nextStallLimit_whole (hb : b.Allot ctx) (hs : s.maxIterations = Arith.whole limit) :
    nextStallLimit ctx s = .ok (Arith.whole (b.stall s.strategy limit s.iterated)) := by
  unfold nextStallLimit Budgets.stall
  split
  · simp only [hb.stalling, ok_bind, add_whole]
  · rw [hs]

theorem timed_of_prepare (hb : b.Allot ctx) {source : List (Triple α)} {spent : Int}
    (h : (prepare ctx source (Arith.whole spent)).apply s = .ok t) :
    Timed b (b.limit s.strategy spent) t ∧ t.strategy = s.strategy ∧ t.phase = .prepared ∧
      t.iterated = 0 := by
  obtain ⟨budget, eyes, q, es, error, stall, hbudget, -, -, -, hstall, rfl⟩ := prepare_eq_ok.1 h
  obtain rfl := Except.ok.inj ((iterationLimit_whole hb ..).symm.trans hbudget)
  obtain rfl := Except.ok.inj ((nextStallLimit_whole hb rfl).symm.trans hstall)
  refine ⟨⟨rfl, rfl, Int.le_refl _, Int.le_refl _, ?_⟩, rfl, rfl, rfl⟩
  exact Int.le_max_left _ _

section Timed

variable (hs : Timed b limit s)

include hs

theorem Timed.mayGoOn_eq : mayGoOn s =
    .ok (decide (s.iterated < min limit (b.stall s.strategy limit s.bestIteration))) := by
  simp only [mayGoOn, hs.maxIterations, hs.stallLimit, Calc.lt, Calc.whole, Calc.map₂, lt_whole,
    ok_bind, decide_eq_true_eq]
  by_cases h : s.iterated < limit
  · rw [if_pos h, Except.ok.injEq, decide_eq_decide]
    omega
  · rw [if_neg h, decide_eq_false (by omega)]
    rfl

theorem Timed.lt_of_mayGoOn (h : mayGoOn s = .ok true) :
    s.iterated < min limit (b.stall s.strategy limit s.bestIteration) := by
  rw [hs.mayGoOn_eq, Except.ok.injEq, decide_eq_true_eq] at h
  exact h

/-- A search stops at the nearer of its limits. -/
theorem Timed.iterated_eq (h : mayGoOn s = .ok false) :
    s.iterated = max 0 (min limit (b.stall s.strategy limit s.bestIteration)) := by
  rw [hs.mayGoOn_eq, Except.ok.injEq, decide_eq_false_iff_not] at h
  have hbest := hs.best_nonneg
  have hle := hs.best_le
  have hlimits := hs.iterated_le
  omega

/-! ### Iterations -/

variable (hb : b.Allot ctx)

include hb

/-- Recording a palette puts the stall limit off, as far from now as it has been at first. -/
theorem Timed.recorded (hgo : mayGoOn s = .ok true) (h : Recorded ctx s r) :
    r.strategy = s.strategy ∧ r.iterated = s.iterated ∧ Timed b limit r ∧
      r.iterated < min limit (b.stall r.strategy limit r.bestIteration) := by
  have hlt := hs.lt_of_mayGoOn hgo
  have hnonneg : 0 ≤ s.iterated := Int.le_trans hs.best_nonneg hs.best_le
  obtain ⟨error, -, ⟨-, stall, hstall, rfl⟩ | ⟨-, rfl⟩⟩ := h
  · obtain rfl := Except.ok.inj ((nextStallLimit_whole hb hs.maxIterations).symm.trans hstall)
    -- a search that may go on has not come to the limit that its best palette so far has put off
    have hlt' : s.iterated < min limit (b.stall s.strategy limit s.iterated) := by
      have hbest := hs.best_le
      unfold Budgets.stall at hlt ⊢
      split at hlt
      · rw [if_pos ‹_›]
        omega
      · rwa [if_neg ‹_›]
    refine ⟨rfl, rfl, ⟨hs.maxIterations, rfl, hnonneg, Int.le_refl _, ?_⟩, hlt'⟩
    show s.iterated ≤ max 0 (min limit (b.stall s.strategy limit s.iterated))
    omega
  · exact ⟨rfl, rfl, hs, hlt⟩

theorem Timed.iterate (hgo : mayGoOn s = .ok true) (h : (State.iterate ctx).apply s = .ok t) :
    Timed b limit t ∧ t.strategy = s.strategy ∧ t.iterated = s.iterated + 1 := by
  obtain ⟨r, u, hr, hu, rfl⟩ := iterate_eq_ok.1 h
  obtain ⟨hstrategy, hiterated, hr, hlt⟩ := hs.recorded hb hgo hr
  have hclock := (keeps_tabuStep overlooks_clock).apply hu
  have hu := hr.of_clock hclock
  obtain ⟨hstrategy', hiterated', hbest', -⟩ := by
    simpa only [clock, Prod.mk.injEq] using hclock
  refine ⟨⟨hu.maxIterations, hu.stallLimit, hu.best_nonneg, ?_, ?_⟩, hstrategy'.trans hstrategy,
    congrArg (· + 1) (hiterated'.trans hiterated)⟩
  · exact Int.le_add_one hu.best_le
  · show u.iterated + 1 ≤ max 0 (min limit (b.stall u.strategy limit u.bestIteration))
    rw [hiterated', hstrategy', hbest']
    omega

theorem Timed.iterated (h : Iterated ctx s t) :
    Timed b limit t ∧ t.strategy = s.strategy := by
  induction h with
  | first => exact ⟨hs, rfl⟩
  | next _ hgo hu ih =>
    obtain ⟨ht, hstrategy⟩ := ih
    obtain ⟨hu, hstrategy', -⟩ := ht.iterate hb hgo hu
    exact ⟨hu, hstrategy'.trans hstrategy⟩

/-- A Tabu search takes its whole budget, unless it stalls before. -/
theorem Timed.exploreTabu (h : (State.exploreTabu ctx).apply s = .ok t) : Timed b limit t ∧
    t.strategy = s.strategy ∧
      t.iterated = max 0 (min limit (b.stall s.strategy limit t.bestIteration)) := by
  obtain ⟨u, hu, hstop, rfl⟩ := iterated_of_exploreTabu h
  obtain ⟨hu, hstrategy⟩ := (hs.of_clock (t := s.opened) rfl).iterated hb hu
  exact ⟨hu.of_clock rfl, hstrategy, hstrategy ▸ hu.iterated_eq hstop⟩

/-! ### Fuel -/

omit [Counting α] hs hb in
theorem runOn_iterateWhile_of_stop (h : mayGoOn s = .ok false) (n : Nat) :
    (iterateWhile ctx n).runOn s = (.ok (), s) := by
  rw [← Update.apply_eq_ok]
  cases n with
  | zero => exact iterateWhile_zero_eq_ok.2 ⟨h, rfl⟩
  | succ n => exact iterateWhile_succ_eq_ok.2 (Or.inl ⟨h, rfl⟩)

omit [Counting α] hs hb in
theorem runOn_iterateWhile_succ (h : mayGoOn s = .ok true) (n : Nat) :
    (iterateWhile ctx (n + 1)).runOn s =
      ((State.iterate ctx) >>= fun _ => iterateWhile ctx n).runOn s := by
  rw [iterateWhile, Update.runOn_bind_of_ok (Update.runOn_get s), h]
  rfl

/-- More fuel than the budget changes nothing: the search ends, or is refused, without it. -/
theorem Timed.iterateWhile_eq {m n : Nat} (hm : limit ≤ s.iterated + m) (hmn : m ≤ n) :
    (iterateWhile ctx n).runOn s = (iterateWhile ctx m).runOn s := by
  induction m generalizing s n with
  | zero =>
    have hstop : mayGoOn s = .ok false := by
      rw [hs.mayGoOn_eq, decide_eq_false (by omega)]
    rw [runOn_iterateWhile_of_stop hstop, runOn_iterateWhile_of_stop hstop]
  | succ m ih =>
    obtain ⟨n, rfl⟩ : ∃ k, n = k + 1 := ⟨n - 1, by omega⟩
    obtain ⟨go, hgo⟩ : ∃ go, mayGoOn s = .ok go := ⟨_, hs.mayGoOn_eq⟩
    cases go with
    | false => rw [runOn_iterateWhile_of_stop hgo, runOn_iterateWhile_of_stop hgo]
    | true =>
      rw [runOn_iterateWhile_succ hgo, runOn_iterateWhile_succ hgo, Update.runOn_bind,
        Update.runOn_bind]
      rcases hiterate : (State.iterate ctx).runOn s with ⟨e | _, t⟩
      · rfl
      · obtain ⟨ht, -, hiterated⟩ := hs.iterate hb hgo (Update.apply_eq_ok.2 hiterate)
        exact ih ht (by omega) (by omega)

omit hb in
theorem Timed.le_iterationsLeft : limit ≤ s.iterated + iterationsLeft s := by
  rw [iterationsLeft, hs.maxIterations, horizon_whole]
  omega

end Timed

omit [Counting α] in
/-- A shake takes no iterations. -/
theorem clock_of_exploreShake (h : (exploreShake ctx).apply (s, draws) = .ok (t, rest)) :
    t.clock = s.clock :=
  keeps_exploreShake.apply h

end State

end Dichromat
