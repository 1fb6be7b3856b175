import Dichromat.Search.Tabu
import Dichromat.Proofs.Outcome

/-!
# The course of a phase

What it takes to prepare a state, to record a palette and to iterate, as conditions on the states
before and after. A Tabu search that ends has gone through iterations (`State.Iterated`) up to a
state that may not go on (`State.iterated_of_exploreTabu`).
-/

namespace Dichromat

namespace State

variable {α : Type} [ColorArith α] {ctx : Context α} {s t : State α}

/-! ### Recording and preparing -/

theorem runOn_shiftStallLimit_eq_ok {a : Unit} : (shiftStallLimit ctx).runOn s = (.ok a, t) ↔
    ∃ limit, nextStallLimit ctx s = .ok limit ∧ t = { s with stallLimit := limit } := by
  unfold shiftStallLimit
  simp only [Update.runOn_bind_eq_ok, Update.runOn_get, Update.runOn_modify, Update.runOn_liftM,
    Prod.mk.injEq, Except.ok.injEq]
  constructor
  · rintro ⟨_, _, ⟨rfl, rfl⟩, limit, _, ⟨hl, rfl⟩, -, rfl⟩
    exact ⟨limit, hl, rfl⟩
  · rintro ⟨limit, hl, rfl⟩
    exact ⟨_, _, ⟨rfl, rfl⟩, limit, _, ⟨hl, rfl⟩, trivial, rfl⟩

theorem runOn_recordBest_eq_ok {error : α} {a : Unit} :
    (recordBest ctx error).runOn s = (.ok a, t) ↔
    ∃ limit, nextStallLimit ctx s = .ok limit ∧
      t = { s with
        bestError := some error, bestIteration := s.iterated, bestPalette := s.palette
        stallLimit := limit } := by
  unfold recordBest
  rw [Update.runOn_bind_of_ok (Update.runOn_modify _ _), runOn_shiftStallLimit_eq_ok]
  rfl

theorem runOn_totalError_true :
    (totalError ctx true).runOn s = (s.strategy.mode.aggregate s.errors, s) := rfl

theorem runOn_totalError_false (h : (measure ctx).runOn s = (.ok (), t)) :
    (totalError ctx false).runOn s = (t.strategy.mode.aggregate t.errors, t) := by
  unfold totalError
  simp only [Bool.false_eq_true, if_false]
  rw [Update.runOn_bind_of_ok h]
  rfl

theorem runOn_measure_eq_ok {a : Unit} : (measure ctx).runOn s = (.ok a, t) ↔ ∃ eyes q es,
    s.projector.projectAll s.palette = .ok (eyes, q) ∧ colorErrors ctx eyes = .ok es ∧
      t = { s with projector := q, projected := eyes, errors := es } := by
  unfold measure
  simp only [Update.runOn_bind_eq_ok, Update.runOn_get, Update.runOn_modify, Update.runOn_liftM,
    Prod.mk.injEq, Except.ok.injEq]
  constructor
  · rintro ⟨_, _, ⟨rfl, rfl⟩, ⟨eyes, q⟩, _, ⟨hall, rfl⟩, _, _, ⟨-, rfl⟩, es, _, ⟨hes, rfl⟩, -, rfl⟩
    exact ⟨eyes, q, es, hall, hes, rfl⟩
  · rintro ⟨eyes, q, es, hall, hes, rfl⟩
    exact ⟨_, _, ⟨rfl, rfl⟩, (eyes, q), _, ⟨hall, rfl⟩, (), _, ⟨trivial, rfl⟩, es, _, ⟨hes, rfl⟩,
      trivial, rfl⟩

theorem runOn_totalError_false_eq_ok {error : α} :
    (totalError ctx false).runOn s = (.ok error, t) ↔
      (measure ctx).runOn s = (.ok (), t) ∧ t.strategy.mode.aggregate t.errors = .ok error := by
  unfold totalError
  simp only [Bool.false_eq_true, if_false, Update.runOn_bind_eq_ok, Update.runOn_get,
    Update.runOn_liftM, Prod.mk.injEq, Except.ok.injEq]
  constructor
  · rintro ⟨_, _, hm, _, _, ⟨rfl, rfl⟩, he, rfl⟩
    exact ⟨hm, he⟩
  · rintro ⟨hm, he⟩
    exact ⟨(), t, hm, t, t, ⟨rfl, rfl⟩, he, rfl⟩

/-- A prepared state measures its source, which is its best palette so far. -/
theorem prepare_eq_ok {source : List (Triple α)} {spent : α} :
    (prepare ctx source spent).apply s = .ok t ↔ ∃ budget eyes q es error limit,
      iterationLimit ctx s.strategy spent = .ok budget ∧
        s.projector.projectAll source = .ok (eyes, q) ∧ colorErrors ctx eyes = .ok es ∧
        s.strategy.mode.aggregate es = .ok error ∧
        nextStallLimit ctx { s with maxIterations := budget, iterated := 0 } = .ok limit ∧
        t = { s with
          projector := q, phase := .prepared, iterated := 0, bestIteration := 0
          bestError := some error, bestPalette := source, maxIterations := budget
          stallLimit := limit, palette := source, projected := eyes, errors := es } := by
  rw [Update.apply_eq_ok]
  unfold prepare
  simp only [Update.runOn_bind_eq_ok, Update.runOn_get, Update.runOn_modify, Update.runOn_liftM,
    Prod.mk.injEq, Except.ok.injEq, runOn_totalError_false_eq_ok, runOn_measure_eq_ok,
    runOn_shiftStallLimit_eq_ok]
  constructor
  · rintro ⟨_, _, ⟨rfl, rfl⟩, budget, _, ⟨hb, rfl⟩, _, _, ⟨-, rfl⟩, error, _,
      ⟨⟨eyes, q, es, hall, hes, rfl⟩, he⟩, _, _, ⟨-, rfl⟩, _, _, ⟨limit, hl, rfl⟩, -, rfl⟩
    exact ⟨budget, eyes, q, es, error, limit, hb, hall, hes, he, hl, rfl⟩
  · rintro ⟨budget, eyes, q, es, error, limit, hb, hall, hes, he, hl, rfl⟩
    exact ⟨_, _, ⟨rfl, rfl⟩, budget, _, ⟨hb, rfl⟩, (), _, ⟨trivial, rfl⟩, error, _,
      ⟨⟨eyes, q, es, hall, hes, rfl⟩, he⟩, (), _, ⟨trivial, rfl⟩, (), _, ⟨limit, hl, rfl⟩,
      trivial, rfl⟩

theorem strategy_of_prepare {source : List (Triple α)} {spent : α}
    (h : (prepare ctx source spent).apply s = .ok t) : t.strategy = s.strategy := by
  obtain ⟨_, _, _, _, _, _, -, -, -, -, -, rfl⟩ := prepare_eq_ok.1 h
  rfl

theorem iterated_of_prepare {source : List (Triple α)} {spent : α}
    (h : (prepare ctx source spent).apply s = .ok t) : t.iterated = 0 := by
  obtain ⟨_, _, _, _, _, _, -, -, -, -, -, rfl⟩ := prepare_eq_ok.1 h
  rfl

/-- Once its budget is known, a preparation holds its source and has begun to count, even where it
is refused; then the phase stays what it was. -/
theorem begun_of_runOn_prepare {source : List (Triple α)} {spent budget : α}
    (hbudget : iterationLimit ctx s.strategy spent = .ok budget) {outcome : Except Fault Unit}
    (h : (prepare ctx source spent).runOn s = (outcome, t)) :
    t.palette = source ∧ t.bestPalette = source ∧ t.iterated = 0 ∧ t.bestIteration = 0 ∧
      (t.phase = s.phase ∨ outcome = .ok ()) := by
  obtain rfl : outcome = ((prepare ctx source spent).runOn s).1 := (congrArg Prod.fst h).symm
  obtain rfl : t = ((prepare ctx source spent).runOn s).2 := (congrArg Prod.snd h).symm
  unfold prepare totalError measure shiftStallLimit
  simp only [Update.runOn_bind, Update.runOn_get, Update.runOn_modify, Update.runOn_liftM, hbudget,
    Bool.false_eq_true, if_false]
  rcases s.projector.projectAll source with e | ⟨eyes, q⟩
  · exact ⟨rfl, rfl, rfl, rfl, Or.inl rfl⟩
  simp only
  rcases colorErrors ctx eyes with e | es
  · exact ⟨rfl, rfl, rfl, rfl, Or.inl rfl⟩
  simp only
  rcases s.strategy.mode.aggregate es with e | error
  · exact ⟨rfl, rfl, rfl, rfl, Or.inl rfl⟩
  simp only
  rcases nextStallLimit ctx _ with e | limit
  · exact ⟨rfl, rfl, rfl, rfl, Or.inl rfl⟩
  · exact ⟨rfl, rfl, rfl, rfl, Or.inr rfl⟩

/-- Without a budget nothing is begun. -/
theorem runOn_prepare_of_no_budget {source : List (Triple α)} {spent : α} {e : Fault}
    (h : iterationLimit ctx s.strategy spent = .error e) :
    (prepare ctx source spent).runOn s = (.error e, s) := by
  unfold prepare
  rw [Update.runOn_bind_of_ok (Update.runOn_get s), Update.runOn_bind, Update.runOn_liftM, h]

/-! ### Iterations -/

/-- The state that an iteration takes its step from: recorded if its error is the best. -/
def Recorded (ctx : Context α) (s r : State α) : Prop :=
  ∃ error, s.strategy.mode.aggregate s.errors = .ok error ∧
    ((isBelow error s.bestError = .ok true ∧ ∃ limit, nextStallLimit ctx s = .ok limit ∧
        r = { s with
          bestError := some error, bestIteration := s.iterated, bestPalette := s.palette
          stallLimit := limit }) ∨
      (isBelow error s.bestError = .ok false ∧ r = s))

theorem iterate_eq_ok : (iterate ctx).apply s = .ok t ↔ ∃ r u,
    Recorded ctx s r ∧ (tabuStep ctx).apply r = .ok u ∧
      t = { u with iterated := u.iterated + 1 } := by
  rw [Update.apply_eq_ok]
  unfold iterate Recorded
  simp only [Update.runOn_bind_eq_ok, runOn_totalError_true, Update.runOn_get, Update.runOn_liftM,
    Update.apply_eq_ok, Prod.mk.injEq, Except.ok.injEq]
  constructor
  · rintro ⟨error, _, ⟨he, rfl⟩, _, _, ⟨rfl, rfl⟩, below, _, ⟨hb, rfl⟩, h⟩
    cases below with
    | true =>
      simp only [if_true, Update.runOn_bind_eq_ok, runOn_recordBest_eq_ok, Update.runOn_modify,
        Prod.mk.injEq] at h
      obtain ⟨_, r, ⟨limit, hl, rfl⟩, _, u, hu, -, rfl⟩ := h
      exact ⟨_, u, ⟨error, he, Or.inl ⟨hb, limit, hl, rfl⟩⟩, hu, rfl⟩
    | false =>
      simp only [Bool.false_eq_true, if_false, Update.runOn_bind_eq_ok, Update.runOn_modify,
        Prod.mk.injEq] at h
      obtain ⟨_, u, hu, -, rfl⟩ := h
      exact ⟨_, u, ⟨error, he, Or.inr ⟨hb, rfl⟩⟩, hu, rfl⟩
  · rintro ⟨r, u, ⟨error, he, ⟨hb, limit, hl, rfl⟩ | ⟨hb, rfl⟩⟩, hu, rfl⟩
    · refine ⟨error, s, ⟨he, rfl⟩, s, s, ⟨rfl, rfl⟩, true, s, ⟨hb, rfl⟩, ?_⟩
      simp only [if_true, Update.runOn_bind_eq_ok, runOn_recordBest_eq_ok, Update.runOn_modify,
        Prod.mk.injEq]
      exact ⟨(), _, ⟨limit, hl, rfl⟩, (), u, hu, trivial, rfl⟩
    · refine ⟨error, r, ⟨he, rfl⟩, r, r, ⟨rfl, rfl⟩, false, r, ⟨hb, rfl⟩, ?_⟩
      simp only [Bool.false_eq_true, if_false, Update.runOn_bind_eq_ok, Update.runOn_modify,
        Prod.mk.injEq]
      exact ⟨(), u, hu, trivial, rfl⟩

/-- The states at which the iterations of a Tabu search begin, and that at which it ends. -/
inductive Iterated (ctx : Context α) (s : State α) : State α → Prop
  | first : Iterated ctx s s
  | next {t u : State α} (h : Iterated ctx s t) (hgo : mayGoOn t = .ok true)
      (hu : (iterate ctx).apply t = .ok u) : Iterated ctx s u

theorem Iterated.after {r : State α} (hgo : mayGoOn s = .ok true)
    (hr : (iterate ctx).apply s = .ok r) (h : Iterated ctx r t) : Iterated ctx s t := by
  induction h with
  | first => exact .next .first hgo hr
  | next _ hgo' hu ih => exact .next ih hgo' hu

theorem iterateWhile_zero_eq_ok :
    (iterateWhile ctx 0).apply s = .ok t ↔ mayGoOn s = .ok false ∧ t = s := by
  rw [Update.apply_eq_ok]
  unfold iterateWhile
  simp only [Update.runOn_bind_eq_ok, Update.runOn_get, Update.runOn_liftM, Prod.mk.injEq,
    Except.ok.injEq]
  constructor
  · rintro ⟨_, _, ⟨rfl, rfl⟩, go, _, ⟨hgo, rfl⟩, h⟩
    cases go with
    | true => exact nomatch (Prod.mk.inj h).1
    | false => exact ⟨hgo, (Prod.mk.inj h).2.symm⟩
  · rintro ⟨hstop, rfl⟩
    exact ⟨t, t, ⟨rfl, rfl⟩, false, t, ⟨hstop, rfl⟩, rfl⟩

theorem iterateWhile_succ_eq_ok {n : Nat} : (iterateWhile ctx (n + 1)).apply s = .ok t ↔
    (mayGoOn s = .ok false ∧ t = s) ∨ (mayGoOn s = .ok true ∧ ∃ r,
      (iterate ctx).apply s = .ok r ∧ (iterateWhile ctx n).apply r = .ok t) := by
  simp only [Update.apply_eq_ok]
  rw [iterateWhile]
  simp only [Update.runOn_bind_eq_ok, Update.runOn_get, Update.runOn_liftM, Prod.mk.injEq,
    Except.ok.injEq]
  constructor
  · rintro ⟨_, _, ⟨rfl, rfl⟩, go, _, ⟨hgo, rfl⟩, h⟩
    cases go with
    | true =>
      simp only [if_true, Update.runOn_bind_eq_ok] at h
      obtain ⟨_, r, hr, h⟩ := h
      exact Or.inr ⟨hgo, r, hr, h⟩
    | false => exact Or.inl ⟨hgo, (Prod.mk.inj h).2.symm⟩
  · rintro (⟨hstop, rfl⟩ | ⟨hgo, r, hr, h⟩)
    · exact ⟨t, t, ⟨rfl, rfl⟩, false, t, ⟨hstop, rfl⟩, rfl⟩
    · refine ⟨s, s, ⟨rfl, rfl⟩, true, s, ⟨hgo, rfl⟩, ?_⟩
      simp only [if_true, Update.runOn_bind_eq_ok]
      exact ⟨(), r, hr, h⟩

theorem iterated_of_iterateWhile {n : Nat} (h : (iterateWhile ctx n).apply s = .ok t) :
    Iterated ctx s t ∧ mayGoOn t = .ok false := by
  induction n generalizing s with
  | zero =>
    obtain ⟨hstop, rfl⟩ := iterateWhile_zero_eq_ok.1 h
    exact ⟨.first, hstop⟩
  | succ n ih =>
    rcases iterateWhile_succ_eq_ok.1 h with ⟨hstop, rfl⟩ | ⟨hgo, r, hr, h⟩
    · exact ⟨.first, hstop⟩
    · obtain ⟨hi, hstop⟩ := ih h
      exact ⟨hi.after hgo hr, hstop⟩

/-- A state as a Tabu search begins with it: no move is forbidden. -/
def opened (s : State α) : State α :=
  { s with phase := .exploring, memory := s.palette.map fun _ => Memory.free }

omit [ColorArith α] in
theorem opened_memory {place : Nat} (h : place < s.palette.length) :
    s.opened.memory[place]? = some Memory.free := by
  rw [opened, List.getElem?_map, List.getElem?_eq_getElem h, Option.map_some]

theorem iterated_of_exploreTabu (h : (exploreTabu ctx).apply s = .ok t) :
    ∃ u, Iterated ctx s.opened u ∧ mayGoOn u = .ok false ∧ t = { u with phase := .done } := by
  rw [Update.apply_eq_ok] at h
  unfold exploreTabu resetMemory at h
  simp only [Update.runOn_bind_eq_ok, Update.runOn_get, Update.runOn_modify, Prod.mk.injEq,
    Except.ok.injEq] at h
  obtain ⟨_, _, ⟨-, rfl⟩, _, _, ⟨-, rfl⟩, _, _, ⟨rfl, rfl⟩, _, u, hu, -, rfl⟩ := h
  obtain ⟨hi, hstop⟩ := iterated_of_iterateWhile (Update.apply_eq_ok.2 hu)
  exact ⟨u, hi, hstop, rfl⟩

end State

end Dichromat
