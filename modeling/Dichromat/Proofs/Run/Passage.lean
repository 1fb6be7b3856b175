import Dichromat.Proofs.Run.Budget

/-!
# The phases of a run

A `Passage` is a phase that a run has been through: the state that it was prepared in, and that in
which it has ended. A run and its passages grow together, phase by phase (`Run.Course`), and every
end of a run has such a course (`Run.exists_course_of_ends`).

`Passage.Protocol` says which strategy every phase has, how many iterations it takes, and from which
palette it starts. All three follow from the phases before: by their number (`Strategy.inTurn`), by
the best palette of the last one (`Passage.lastBest`), and by the best one of all their Sum phases
(`Passage.leader`).
-/

namespace Dichromat

variable {α : Type} [ColorArith α]

/-- Every second phase is a Sum phase; in between a Max phase and a shake take turns. -/
def Strategy.inTurn (n : Nat) : Strategy :=
  match n % 4 with
  | 1 => .tabuMax
  | 3 => .shake
  | _ => .tabuSum

theorem Strategy.inTurn_of_even {n : Nat} (h : n % 2 = 0) : inTurn n = .tabuSum := by
  have hn : n % 4 = 0 ∨ n % 4 = 2 := by omega
  rcases hn with hn | hn <;> simp [inTurn, hn]

example : (List.range 6).map Strategy.inTurn =
    [.tabuSum, .tabuMax, .tabuSum, .shake, .tabuSum, .tabuMax] := by
  decide

/-- A phase that a run has been through. -/
structure Passage (α : Type) where
  prepared : State α
  /-- The draws before the phase. -/
  draws : Draws α
  ended : State α
  /-- The draws that it has left. -/
  rest : Draws α

namespace Passage

variable {ctx : Context α} {b : Budgets} {original : List (Triple α)} {ps : List (Passage α)}
  {p : Passage α} {best : Option α × List (Triple α)}

/-- The record of a phase. -/
def record (p : Passage α) : PhaseRecord α :=
  { strategy := p.ended.strategy, iterations := p.ended.iterated
    errorBefore := p.prepared.bestError, errorAfter := p.ended.bestError }

/-! ### What a phase may start from -/

/-- The best palette of the last phase; before all phases it is the original one. -/
def lastBest (original : List (Triple α)) (ps : List (Passage α)) : List (Triple α) :=
  match ps.getLast? with
  | some p => p.ended.bestPalette
  | none => original

/-- The best error and the best palette of a run after one more phase: a Sum phase that improves on
the error brings its own. -/
def overtake (best : Option α × List (Triple α)) (p : Passage α) :
    Except Fault (Option α × List (Triple α)) :=
  if p.ended.strategy = .tabuSum then do
    if ← Run.improves p.ended.bestError best.1 then
      return (p.ended.bestError, p.ended.bestPalette)
    else return best
  else .ok best

/-- The best error and the best palette of a run after all its phases. -/
def leader (original : List (Triple α)) (ps : List (Passage α)) :
    Except Fault (Option α × List (Triple α)) :=
  ps.foldlM overtake (none, original)

omit [ColorArith α] in
@[simp] theorem lastBest_concat : lastBest original (ps ++ [p]) = p.ended.bestPalette := by
  simp [lastBest]

theorem leader_nil : leader original ([] : List (Passage α)) = .ok (none, original) := rfl

theorem leader_concat : leader original (ps ++ [p]) = leader original ps >>= (overtake · p) := by
  simp [leader]

theorem overtake_of_better (hp : p.ended.strategy = .tabuSum)
    (h : Run.improves p.ended.bestError best.1 = .ok true) :
    overtake best p = .ok (p.ended.bestError, p.ended.bestPalette) := by
  rw [overtake, if_pos hp, h]
  rfl

theorem overtake_of_kept (hp : p.ended.strategy = .tabuSum)
    (h : Run.improves p.ended.bestError best.1 = .ok false) : overtake best p = .ok best := by
  rw [overtake, if_pos hp, h]
  rfl

theorem overtake_of_ne (hp : p.ended.strategy ≠ .tabuSum) : overtake best p = .ok best := by
  simp [overtake, hp]

/-! ### The protocol -/

/-- What a phase is, what it takes and what it starts from, given the phases before it. -/
structure Follows (ctx : Context α) (b : Budgets) (before : List (Passage α)) (p : Passage α) :
    Prop where
  prepared : p.prepared.phase = .prepared
  explored : Run.explorePhase ctx p.prepared p.draws = .ok (p.ended, p.rest, p.record)
  strategy : p.record.strategy = .inTurn before.length
  /-- A Sum phase takes at least one iteration of what is left of the budget; it starts from the
  best palette of the phase before, with the Sum error of this palette. -/
  sum : p.record.strategy = .tabuSum →
    1 ≤ p.record.iterations ∧
    p.record.iterations ≤ b.depth - Run.iterationsOf (before.map record) ∧
    p.prepared.palette = lastBest ctx.original before ∧
    ∃ e, p.record.errorBefore = some e ∧ paletteError ctx p.prepared.palette .sum = .ok e
  /-- A Max phase takes its duration, from the best palette of the Sum phase before. -/
  max : p.record.strategy = .tabuMax →
    p.record.iterations = b.duration ∧ p.prepared.palette = lastBest ctx.original before
  /-- A shake takes no iterations; it starts from the best palette of the run. -/
  shake : p.record.strategy = .shake →
    p.record.iterations = 0 ∧ ∃ e, leader ctx.original before = .ok (e, p.prepared.palette)

/-- Every phase follows those before it. -/
def Protocol (ctx : Context α) (b : Budgets) (ps : List (Passage α)) : Prop :=
  ∀ before p after, ps = before ++ p :: after → p.Follows ctx b before

theorem protocol_nil : Protocol ctx b [] := by
  intro before p after h
  simp at h

theorem Protocol.concat (h : Protocol ctx b ps) (hp : p.Follows ctx b ps) :
    Protocol ctx b (ps ++ [p]) := by
  intro before q after hq
  rcases List.eq_nil_or_concat' after with rfl | ⟨after, last, rfl⟩
  · obtain ⟨rfl, hpq⟩ := List.append_inj' hq rfl
    exact List.singleton_inj.1 hpq ▸ hp
  · rw [← List.cons_append, ← List.append_assoc] at hq
    exact h before q after (List.append_inj' hq rfl).1

theorem Protocol.follows_of_mem (h : Protocol ctx b ps) (hp : p ∈ ps) :
    ∃ before, p.Follows ctx b before := by
  obtain ⟨before, after, rfl⟩ := List.append_of_mem hp
  exact ⟨before, h before p after rfl⟩

/-- A Sum phase has always found a palette. -/
theorem Follows.exists_errorAfter {before : List (Passage α)} (h : p.Follows ctx b before)
    (hp : p.record.strategy = .tabuSum) : ∃ e, p.record.errorAfter = some e := by
  obtain ⟨-, -, -, e, he, -⟩ := h.sum hp
  obtain ⟨hexplore, -⟩ := Run.explorePhase_eq_ok.1 h.explored
  obtain ⟨-, ⟨hshake, -⟩ | ⟨-, htabu, -⟩⟩ := State.explore_eq_ok.1 hexplore
  · have hkept : p.ended.strategy = p.prepared.strategy := State.keeps_explore.apply hexplore
    exact nomatch hp.symm.trans (hkept.trans hshake)
  · obtain ⟨u, hu, -, hended⟩ := State.iterated_of_exploreTabu htabu
    obtain ⟨e', he'⟩ := State.exists_bestError_of_iterated (s := p.prepared.opened) ⟨e, he⟩ hu
    exact ⟨e', (congrArg State.bestError hended).trans he'⟩

end Passage

/-! ### Courses of runs -/

namespace Run

variable {ctx : Context α} {depth : α} {draws : Draws α} {run r t : Run α}

/-- The state of the last disturbance. -/
def disturbed (run : Run α) : State α := if run.disturbedByMax then run.max else run.shaker

/-- The Sum phase that has taken a run to `r`. -/
def sumPassage (run r : Run α) : Passage α := ⟨run.sum, run.draws, r.sum, r.draws⟩

/-- The disturbance, from a prepared state, that has taken a run to `t`. -/
def disturbance (prepared : State α) (run t : Run α) : Passage α :=
  ⟨prepared, run.draws, t.disturbed, t.draws⟩

/-- Where the loop stands: before a Sum phase, or after one, before what disturbs it. -/
inductive Stage
  | search | disturb

/-- The phases that a run has been through, in their order. -/
inductive Course (ctx : Context α) (depth : α) (draws : Draws α) :
    Stage → List (Passage α) → Run α → Prop
  | start {run : Run α} (h : Run.start ctx draws = .ok run) : Course ctx depth draws .search [] run
  | searched {ps : List (Passage α)} {run r : Run α} (h : Course ctx depth draws .search ps run)
      (hgo : Comparable.lt (Arith.whole run.spent) depth = .ok true)
      (hr : searchPhase ctx run = .ok r) :
      Course ctx depth draws .disturb (ps ++ [sumPassage run r]) r
  | disturbed {ps : List (Passage α)} {r t : Run α} {prepared : State α}
      (h : Course ctx depth draws .disturb ps r)
      (hgo : Comparable.le depth (Arith.whole r.spent) = .ok false)
      (hprepared : disturber ctx r = .ok prepared) (ht : disturb ctx r = .ok t) :
      Course ctx depth draws .search (ps ++ [disturbance prepared r t]) t

/-- The state that a run explores next, if its budget lasts. -/
inductive Faces (ctx : Context α) (depth : α) : Stage → Run α → State α → Prop
  | sum {run : Run α} (hgo : Comparable.lt (Arith.whole run.spent) depth = .ok true) :
      Faces ctx depth .search run run.sum
  | disturber {r : Run α} {prepared : State α}
      (hgo : Comparable.le depth (Arith.whole r.spent) = .ok false)
      (h : Run.disturber ctx r = .ok prepared) : Faces ctx depth .disturb r prepared

theorem exists_course_of_reached (h : Reached ctx depth draws run) :
    ∃ ps, Course ctx depth draws .search ps run := by
  induction h with
  | start h => exact ⟨[], .start h⟩
  | next _ hgo hr hgo' ht ih =>
    obtain ⟨ps, hps⟩ := ih
    obtain ⟨prepared, _, _, _, _, hprepared, -⟩ := disturb_eq_ok.1 ht
    exact ⟨_, .disturbed (.searched hps hgo hr) hgo' hprepared ht⟩

theorem exists_course_of_ends (h : Ends ctx depth draws r) :
    ∃ stage ps, Course ctx depth draws stage ps r := by
  rcases h with ⟨h, -⟩ | ⟨h, hgo, hr, -⟩
  · exact ⟨_, exists_course_of_reached h⟩
  · obtain ⟨ps, hps⟩ := exists_course_of_reached h
    exact ⟨_, _, .searched hps hgo hr⟩

/-! ### A phase added -/

/-- A phase takes a run to another one, which records it and knows the best palette after it. -/
structure Adds (ctx : Context α) (run : Run α) (p : Passage α) (r : Run α) : Prop where
  explored : explorePhase ctx p.prepared p.draws = .ok (p.ended, p.rest, p.record)
  phases : r.phases = run.phases ++ [p.record]
  best : Passage.overtake (run.bestError, run.bestPalette) p = .ok (r.bestError, r.bestPalette)

theorem adds_of_searchPhase (hs : run.sum.strategy = .tabuSum) (h : searchPhase ctx run = .ok r) :
    Adds ctx run (sumPassage run r) r ∧ r.spent = run.spent + r.sum.iterated ∧
      r.disturbedByMax = run.disturbedByMax := by
  obtain ⟨sum, draws, record, hphase, hr⟩ := searchPhase_eq_ok.1 h
  obtain ⟨hexplore, rfl⟩ := explorePhase_eq_ok.1 hphase
  have hsum : sum.strategy = .tabuSum := (State.keeps_explore.apply hexplore).trans hs
  rcases hr with ⟨hb, rfl⟩ | ⟨hb, rfl⟩
  · exact ⟨⟨hphase, rfl, Passage.overtake_of_better hsum hb⟩, rfl, rfl⟩
  · exact ⟨⟨hphase, rfl, Passage.overtake_of_kept hsum hb⟩, rfl, rfl⟩

/-- A disturbance leaves the best palette of the run as it is, and the next Sum phase prepared. -/
theorem adds_of_disturb {prepared : State α} (hprepared : disturber ctx r = .ok prepared)
    (h : disturb ctx r = .ok t) : t.disturbedByMax = !r.disturbedByMax ∧
      (State.prepare ctx t.disturbed.bestPalette (Arith.whole t.spent)).apply r.sum = .ok t.sum ∧
      (State.explore ctx).apply (prepared, r.draws) = .ok (t.disturbed, t.draws) ∧
      (t.disturbed.strategy ≠ .tabuSum → Adds ctx r (disturbance prepared r t) t) := by
  obtain ⟨prepared', disturbed, draws, record, sum, hprepared', hphase, hsum, ht⟩ :=
    disturb_eq_ok.1 h
  obtain rfl := Except.ok.inj (hprepared.symm.trans hprepared')
  obtain ⟨hexplore, rfl⟩ := explorePhase_eq_ok.1 hphase
  have hdisturbed : t.disturbed = disturbed := by
    rw [ht]
    cases r.disturbedByMax <;> simp [Run.disturbed]
  obtain ⟨hnext, hdraws, hspent, hby, hphases, hbest⟩ : t.sum = sum ∧ t.draws = draws ∧
      t.spent = r.spent + disturbed.iterated ∧ t.disturbedByMax = !r.disturbedByMax ∧
      t.phases = r.phases ++ [(⟨prepared, r.draws, disturbed, draws⟩ : Passage α).record] ∧
      (t.bestError, t.bestPalette) = (r.bestError, r.bestPalette) := by
    rw [ht]
    exact ⟨rfl, rfl, rfl, rfl, rfl, rfl⟩
  have hpassage : disturbance prepared r t = ⟨prepared, r.draws, disturbed, draws⟩ := by
    rw [disturbance, hdisturbed, hdraws]
  rw [hpassage, hdisturbed, hnext, hspent, hdraws]
  refine ⟨hby, hsum, hexplore, fun hs => ⟨hphase, hphases, ?_⟩⟩
  rw [hbest]
  exact Passage.overtake_of_ne hs

end Run

end Dichromat
