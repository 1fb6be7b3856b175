import Dichromat.Proofs.Exact.Phase
import Dichromat.Proofs.Run.Course
import Dichromat.Proofs.Search.Clock

/-!
# The exact length of a phase

A Sum search is put off by every better palette: in each of its states the iteration at which it
stalls lies the stalling period after its best one. A Max search has its whole duration from the
first to the last iteration (`State.timed_of_explores`). So a search ends exactly at the nearer of
its two limits, or does not begin where the budget is overspent (`State.exploreTabu_lasts`).
-/

namespace Dichromat

namespace State

section Explores

variable {α : Type} [ColorArith α] [Counting α] {ctx : Context α} {b : Budgets} {s v : State α}
  {limit : ℤ} {draws : Draws α} (hb : b.Allot ctx) (hs : Timed b limit s)
  (hne : s.strategy ≠ .shake) (h : Explores ctx s draws v)

include hb hs hne h

/-- The clock of a Tabu search is right in all states that it goes through. -/
theorem timed_of_explores : Timed b limit v ∧ v.strategy = s.strategy := by
  have hopened : Timed b limit s.opened := hs.of_clock rfl
  cases h with
  | prepared => exact ⟨hs, rfl⟩
  | begun _ h => exact hopened.iterated hb h
  | recorded _ h hgo hr =>
    obtain ⟨ht, hstrategy⟩ := hopened.iterated hb h
    obtain ⟨hstrategy', -, hv, -⟩ := ht.recorded hb hgo hr
    exact ⟨hv, hstrategy'.trans hstrategy⟩
  | shaken hshake => exact absurd hshake hne
  | done h =>
    obtain ⟨-, ⟨hshake, -⟩ | ⟨-, h, -⟩⟩ := explore_eq_ok.1 h
    · exact absurd hshake hne
    · obtain ⟨hv, hstrategy, -⟩ := hs.exploreTabu hb h
      exact ⟨hv, hstrategy⟩

theorem limits_of_explores : v.maxIterations = Arith.whole limit ∧
    v.stallLimit = Arith.whole (b.stall s.strategy limit v.bestIteration) := by
  obtain ⟨hv, hstrategy⟩ := timed_of_explores hb hs hne h
  exact ⟨hv.maxIterations, hstrategy ▸ hv.stallLimit⟩

end Explores

/-- In exact arithmetic every prepared state can be searched to the end. In any numbers that count
exactly a Sum search takes what is left of the budget, unless it stalls before; a Max search takes
its duration. The limits are these in every state that the search goes through, and in the last one
they tell how many iterations there were. -/
theorem exploreTabu_lasts :
    (∀ (ctx : Context ℝ) (r s : State ℝ) (source : List (Triple ℝ)) (spent : ℝ),
      r.projector.Serves ctx.deficiency → (prepare ctx source spent).apply r = .ok s →
      ∃ t, (exploreTabu ctx).apply s = .ok t) ∧
    (∀ (α : Type) [ColorArith α] [Counting α] (ctx : Context α) (r s : State α)
      (source : List (Triple α)) (depth stalling duration spent : ℤ) (draws : Draws α),
      ctx.settings.depthPerColor = Arith.whole depth →
      ctx.settings.stallingPeriod = Arith.whole stalling →
      ctx.settings.maxModeDuration = Arith.whole duration → 0 ≤ duration →
      (prepare ctx source (Arith.whole spent)).apply r = .ok s →
      (r.strategy = .tabuSum →
        (∀ v, Explores ctx s draws v →
          v.maxIterations = Arith.whole (depth * ctx.size - spent) ∧
          v.stallLimit = Arith.whole (v.bestIteration + stalling * ctx.size)) ∧
        ∀ t, (exploreTabu ctx).apply s = .ok t → t.iterated =
          max 0 (min (depth * ctx.size - spent) (t.bestIteration + stalling * ctx.size))) ∧
      (r.strategy = .tabuMax →
        (∀ v, Explores ctx s draws v →
          v.maxIterations = Arith.whole (duration * ctx.size) ∧ v.stallLimit = v.maxIterations) ∧
        ∀ t, (exploreTabu ctx).apply s = .ok t → t.iterated = duration * ctx.size)) := by
  constructor
  · intro ctx r s source spent hserves hs
    exact Exact.exists_exploreTabu_of_coherent (coherent_of_prepare hserves hs)
  · intro α _ _ ctx r s source depth stalling duration spent draws hdepth hstalling hduration
      hnonneg hs
    have hb := Budgets.allot_of_perColor hdepth hstalling hduration
    obtain ⟨htimed, hstrategy, -⟩ := timed_of_prepare hb hs
    constructor
    · intro hsum
      rw [hsum] at htimed hstrategy
      have hne : s.strategy ≠ .shake := hstrategy ▸ nofun
      refine ⟨fun v hv => ?_, fun t ht => ?_⟩
      · have hlimits := limits_of_explores hb htimed hne hv
        rwa [hstrategy] at hlimits
      · obtain ⟨-, -, hiterated⟩ := htimed.exploreTabu hb ht
        rwa [hstrategy] at hiterated
    · intro hmax
      rw [hmax] at htimed hstrategy
      have hne : s.strategy ≠ .shake := hstrategy ▸ nofun
      refine ⟨fun v hv => ?_, fun t ht => ?_⟩
      · obtain ⟨hlimit, hstall⟩ := limits_of_explores hb htimed hne hv
        rw [hstrategy] at hstall
        exact ⟨hlimit, hstall.trans hlimit.symm⟩
      · obtain ⟨-, -, hiterated⟩ := htimed.exploreTabu hb ht
        rw [hstrategy] at hiterated
        have hlimit : t.iterated = max 0 (min (duration * ctx.size) (duration * ctx.size)) :=
          hiterated
        rw [hlimit, min_self, max_eq_right (Int.mul_nonneg hnonneg (Int.natCast_nonneg _))]

open Exact in
/-- Black and white for a red-blind eye, with the standard budgets: a first Sum search, one that
begins when 4 iterations more than the budget are spent, and a Max search. -/
theorem exploreTabu_lasts_black_white : ∃ (ctx : Context ℝ) (s t s' t' s'' t'' : State ℝ),
    Context.ofLinear [Triple.replicate 0, Triple.replicate 1] .red Settings.standard = .ok ctx ∧
      (prepare ctx ctx.original (Arith.whole 0)).apply (State.idle ctx.deficiency .tabuSum) =
        .ok s ∧
      (exploreTabu ctx).apply s = .ok t ∧
      t.iterated = max 0 (min (4000 * 2) (t.bestIteration + 8 * 2)) ∧
      (prepare ctx ctx.original (Arith.whole 8004)).apply (State.idle ctx.deficiency .tabuSum) =
        .ok s' ∧
      (exploreTabu ctx).apply s' = .ok t' ∧ t'.iterated = 0 ∧
      (prepare ctx ctx.original (Arith.whole 8004)).apply (State.idle ctx.deficiency .tabuMax) =
        .ok s'' ∧
      (exploreTabu ctx).apply s'' = .ok t'' ∧ t''.iterated = 4 * 2 := by
  obtain ⟨ctx, -, hctx, -, hregular, -⟩ := exists_black_white
  obtain ⟨⟨horiginal, -, hset⟩, -⟩ := ofLinear_eq_ok.1 hctx
  have hsize : ctx.size = 2 := congrArg List.length horiginal
  have hsearch (strategy : Strategy) (spent : ℤ) : ∃ s t : State ℝ,
      (prepare ctx ctx.original (Arith.whole spent)).apply (State.idle ctx.deficiency strategy) =
        .ok s ∧
      (exploreTabu ctx).apply s = .ok t ∧
      (strategy = .tabuSum →
        t.iterated = max 0 (min (4000 * 2 - spent) (t.bestIteration + 8 * 2))) ∧
      (strategy = .tabuMax → t.iterated = 4 * 2) := by
    have hserves := Projector.serves_ofDeficiency (α := ℝ) ctx.deficiency
    obtain ⟨s, hs⟩ := exists_prepare (s := State.idle ctx.deficiency strategy) hregular hserves
      hregular.original (Arith.whole spent)
    obtain ⟨t, ht⟩ := exploreTabu_lasts.1 ctx _ s _ _ hserves hs
    obtain ⟨hsum, hmax⟩ := exploreTabu_lasts.2 ℝ ctx _ s _ 4000 8 4 spent
      (.sequence (fun _ => 1 / 2) 0) (hset ▸ rfl) (hset ▸ rfl) (hset ▸ rfl) (by norm_num) hs
    rw [hsize] at hsum hmax
    exact ⟨s, t, hs, ht, fun h => (hsum h).2 t ht, fun h => (hmax h).2 t ht⟩
  obtain ⟨s, t, hs, ht, hsum, -⟩ := hsearch .tabuSum 0
  obtain ⟨s', t', hs', ht', hsum', -⟩ := hsearch .tabuSum 8004
  obtain ⟨s'', t'', hs'', ht'', -, hmax⟩ := hsearch .tabuMax 8004
  refine ⟨ctx, s, t, s', t', s'', t'', hctx, hs, ht, hsum rfl, hs', ht', ?_, hs'', ht'', hmax rfl⟩
  have hlate := hsum' rfl
  omega

end State

end Dichromat
