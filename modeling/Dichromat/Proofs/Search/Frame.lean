import Dichromat.Search.Explore
import Dichromat.Proofs.Search.Phase

/-!
# What a phase leaves as it was

A step touches the palette of its state with its projection, its errors and its memory, and nothing
else (`State.keeps_tabuStep`): not the best palette of the phase and its error (`State.standing`)
nor what has been iterated and the limits (`State.clock`). A shake leaves the clock alone, too, and
no exploration touches the strategy (`State.keeps_explore`).
-/

namespace Dichromat

namespace State

variable {α : Type} [ColorArith α] {ctx : Context α} {s t : State α} {draws rest : Draws α}
  {δ : Type} {view : State α → δ}

open Update

/-! ### A step -/

/-- The strategy, and where the phase is. -/
def role (s : State α) : Strategy × Phase := (s.strategy, s.phase)

/-- The strategy, and the best palette with its error. -/
def standing (s : State α) : Strategy × Option α × List (Triple α) :=
  (s.strategy, s.bestError, s.bestPalette)

/-- The strategy, what has been iterated, and the limits. -/
def clock (s : State α) : Strategy × Int × Int × α × α :=
  (s.strategy, s.iterated, s.bestIteration, s.maxIterations, s.stallLimit)

/-- A view that does not see what a step works on. -/
def Overlooks (view : State α → δ) : Prop :=
  ∀ (s : State α) (projector : Projector α) (palette : List (Triple α)) (projected : List (Eye α))
    (errors : List α) (memory : List Memory),
    view { s with projector, palette, projected, errors, memory } = view s

/-- A view that does not see the errors and the memory. -/
def OverlooksErrors (view : State α → δ) : Prop :=
  ∀ (s : State α) (errors : List α) (memory : List Memory), view { s with errors, memory } = view s

omit [ColorArith α] in
theorem Overlooks.errors (hv : Overlooks view) : OverlooksErrors view :=
  fun s => hv s s.projector s.palette s.projected

omit [ColorArith α] in
theorem OverlooksErrors.errors (hv : OverlooksErrors view) (s : State α) (errors : List α) :
    view { s with errors } = view s :=
  hv s errors s.memory

omit [ColorArith α] in
theorem overlooksErrors_projector : OverlooksErrors fun s : State α => s.projector :=
  fun _ _ _ => rfl

omit [ColorArith α] in
theorem overlooks_role : Overlooks fun s : State α => s.role := fun _ _ _ _ _ _ => rfl

omit [ColorArith α] in
theorem overlooks_standing : Overlooks fun s : State α => s.standing := fun _ _ _ _ _ _ => rfl

omit [ColorArith α] in
theorem overlooks_clock : Overlooks fun s : State α => s.clock := fun _ _ _ _ _ _ => rfl

section Errors

variable (hv : ∀ (s : State α) (errors : List α), view { s with errors } = view s)

include hv

theorem keeps_refresh (seen : List (Eye α)) (l : Nat) (eye : Eye α) :
    (refresh ctx seen l eye).Keeps view := by
  unfold refresh
  refine Keeps.bind (keeps_liftM _) fun error => Keeps.bind keeps_get fun s => ?_
  exact Keeps.bind (keeps_liftM _) fun _ => keeps_modify fun s => hv s _

theorem keeps_renewErrors (c : Choice α) : (renewErrors ctx c).Keeps view := by
  unfold renewErrors refreshOthers
  refine Keeps.bind keeps_get fun s => Keeps.bind (keeps_liftM _) fun _ => ?_
  refine Keeps.bind (keeps_modify fun s => hv s _) fun _ => ?_
  refine Keeps.bind keeps_get fun s => ?_
  refine keeps_forM (fun x => ?_) _
  split
  exact ite_keeps (keeps_pure _) (keeps_refresh hv _ _ _)

end Errors

omit [ColorArith α] in
theorem keeps_remember (hv : OverlooksErrors view) (c : Choice α) : (remember c).Keeps view := by
  unfold remember
  refine Keeps.bind keeps_get fun s => Keeps.bind (keeps_liftM _) fun _ => ?_
  exact keeps_modify fun s => hv s s.errors _

section Step

variable (hv : Overlooks view)

include hv

theorem keeps_recolor (c : Choice α) : (recolor c).Keeps view := by
  unfold recolor
  refine Keeps.bind (keeps_modify fun s => hv s _ _ _ _ _) fun _ => Keeps.bind keeps_get fun s => ?_
  split
  · refine Keeps.bind keeps_get fun s => Keeps.bind (keeps_liftM _) fun projector => ?_
    exact Keeps.bind (keeps_liftM _) fun eye => keeps_modify fun s => hv s _ _ _ _ _
  · exact keeps_throw _

theorem keeps_tabuStep : (tabuStep ctx).Keeps view := by
  unfold tabuStep applyChoice
  refine Keeps.bind keeps_get fun s => ?_
  split
  · exact keeps_pure _
  · refine Keeps.bind (keeps_liftM _) fun tried => ?_
    refine Keeps.bind (keeps_modify fun s => hv s _ _ _ _ _) fun _ => ?_
    refine Keeps.bind (keeps_liftM _) fun best => Keeps.bind (keeps_recolor hv _) fun _ => ?_
    exact Keeps.bind (keeps_renewErrors hv.errors.errors _) fun _ => keeps_remember hv.errors _

/-! ### A phase -/

theorem keeps_measure : (measure ctx).Keeps view := by
  unfold measure
  refine Keeps.bind keeps_get fun s => Keeps.bind (keeps_liftM _) fun projected => ?_
  refine Keeps.bind (keeps_modify fun s => hv s _ _ _ _ _) fun _ => ?_
  exact Keeps.bind (keeps_liftM _) fun errors => keeps_modify fun s => hv s _ _ _ _ _

theorem keeps_totalError (upToDate : Bool) : (totalError ctx upToDate).Keeps view := by
  unfold totalError
  have hrest : (get >>= fun s => liftM (s.strategy.mode.aggregate s.errors) :
      Update (State α) α).Keeps view :=
    Keeps.bind keeps_get fun s => keeps_liftM _
  exact ite_keeps hrest (Keeps.bind (keeps_measure hv) fun _ => hrest)

end Step

theorem keeps_totalError_true : (totalError ctx true).Keeps view := keeps_of_eq fun _ => rfl

theorem keeps_recordBest (hv : ∀ (s : State α) (bestError : Option α) (bestIteration : Int)
      (bestPalette : List (Triple α)) (stallLimit : α),
      view { s with bestError, bestIteration, bestPalette, stallLimit } = view s) (error : α) :
    (recordBest ctx error).Keeps view := by
  unfold recordBest shiftStallLimit
  refine Keeps.bind (keeps_modify fun s => hv s _ _ _ s.stallLimit) fun _ => ?_
  refine Keeps.bind keeps_get fun s => Keeps.bind (keeps_liftM _) fun limit => ?_
  exact keeps_modify fun s => hv s s.bestError s.bestIteration s.bestPalette limit

theorem keeps_iterate : (iterate ctx).Keeps State.role := by
  unfold iterate
  refine Keeps.bind keeps_totalError_true fun error => ?_
  refine Keeps.bind keeps_get fun s => Keeps.bind (keeps_liftM _) fun below => ?_
  have hstep : (tabuStep ctx >>= fun _ =>
      modify fun s => { s with iterated := s.iterated + 1 } : Update (State α) PUnit).Keeps
      State.role :=
    Keeps.bind (keeps_tabuStep overlooks_role) fun _ => keeps_modify fun _ => rfl
  exact ite_keeps (Keeps.bind (keeps_recordBest (fun _ _ _ _ _ => rfl) _) fun _ => hstep) hstep

/-- An iteration counts itself and leaves strategy and budget. -/
theorem progress_of_iterate (h : (iterate ctx).apply s = .ok t) : t.strategy = s.strategy ∧
    t.iterated = s.iterated + 1 ∧ t.maxIterations = s.maxIterations := by
  obtain ⟨r, u, ⟨_, -, hr⟩, hu, rfl⟩ := iterate_eq_ok.1 h
  have hclock : u.clock = r.clock := (keeps_tabuStep overlooks_clock).apply hu
  simp only [clock, Prod.mk.injEq] at hclock
  obtain ⟨hstrategy, hiterated, -, hmax, -⟩ := hclock
  have hnext := congrArg (· + 1) hiterated
  rcases hr with ⟨-, _, -, rfl⟩ | ⟨-, rfl⟩
  · exact ⟨hstrategy, hnext, hmax⟩
  · exact ⟨hstrategy, hnext, hmax⟩

theorem keeps_iterateWhile (fuel : Nat) : (iterateWhile ctx fuel).Keeps State.role := by
  induction fuel with
  | zero =>
    unfold iterateWhile
    refine Keeps.bind keeps_get fun s => Keeps.bind (keeps_liftM _) fun go => ?_
    exact ite_keeps (keeps_throw _) (keeps_pure _)
  | succ fuel ih =>
    unfold iterateWhile
    refine Keeps.bind keeps_get fun s => Keeps.bind (keeps_liftM _) fun go => ?_
    exact ite_keeps (Keeps.bind keeps_iterate fun _ => ih) (keeps_pure _)

theorem keeps_exploreTabu : (exploreTabu ctx).Keeps State.strategy := by
  unfold exploreTabu resetMemory
  refine Keeps.bind (keeps_modify fun _ => rfl) fun _ => ?_
  refine Keeps.bind (keeps_modify fun _ => rfl) fun _ => ?_
  refine Keeps.bind keeps_get fun s => Keeps.bind ((keeps_iterateWhile _).map Prod.fst) fun _ => ?_
  exact keeps_modify fun _ => rfl

/-! ### An exploration -/

omit [ColorArith α] in
theorem runOn_onState {β : Type} (u : Update (State α) β) :
    (onState u).runOn (s, draws) = ((u.runOn s).1, (u.runOn s).2, draws) := by
  unfold onState
  rw [runOn_bind_of_ok (runOn_get _)]
  rfl

omit [ColorArith α] in
theorem preserves_onState {β : Type} {u : Update (State α) β} {I : State α → Prop}
    (hu : u.Preserves I) : (onState u).Preserves fun x : State α × Draws α => I x.1 := by
  rintro ⟨s, draws⟩ hs
  rw [runOn_onState]
  exact hu s hs

omit [ColorArith α] in
theorem keeps_onState {β : Type} {u : Update (State α) β} (h : u.Keeps view) :
    (onState u).Keeps fun x : State α × Draws α => view x.1 :=
  fun d => preserves_onState (h d)

/-- A shake replaces the colour at its place, if there is one, and uses a draw for it. -/
theorem runOn_shakeColor_eq_ok {place : Nat} {a : Unit} :
    (shakeColor ctx place).runOn (s, draws) = (.ok a, t, rest) ↔
      (s.palette[place]? = none ∧ t = s ∧ rest = draws) ∨
        ∃ color eye eye' color', s.palette[place]? = some color ∧
          Eye.ofLinear .normalized color = .ok eye ∧
          shaken ctx.settings draws.draw.1 eye = .ok eye' ∧ eye'.toLinear = .ok color' ∧
          t = { s with palette := s.palette.set place color' } ∧ rest = draws.draw.2 := by
  unfold shakeColor
  rw [runOn_bind_of_ok (runOn_get _)]
  simp only
  rcases hcolor : s.palette[place]? with _ | color
  · simp only [runOn_pure, Prod.mk.injEq, true_and, reduceCtorEq, false_and, exists_false, or_false]
    exact and_congr eq_comm eq_comm
  · simp only [runOn_bind_eq_ok, runOn_liftM, runOn_set, Prod.mk.injEq, reduceCtorEq, false_and,
      false_or, Option.some.injEq]
    constructor
    · rintro ⟨eye, _, ⟨he, rfl⟩, _, _, ⟨-, rfl⟩, eye', _, ⟨he', rfl⟩, color', _, ⟨hc, rfl⟩, -,
        rfl, rfl⟩
      exact ⟨color, eye, eye', color', rfl, he, he', hc, rfl, rfl⟩
    · rintro ⟨_, eye, eye', color', rfl, he, he', hc, rfl, rfl⟩
      exact ⟨eye, _, ⟨he, rfl⟩, (), _, ⟨trivial, rfl⟩, eye', _, ⟨he', rfl⟩, color', _, ⟨hc, rfl⟩,
        trivial, rfl, rfl⟩

/-- Whatever its outcome, a shake of a colour touches the palette and the draws alone. -/
theorem exists_runOn_shakeColor (ctx : Context α) (place : Nat) (s : State α) (draws : Draws α) :
    ∃ palette, ((shakeColor ctx place).runOn (s, draws)).2.1 = { s with palette } := by
  unfold shakeColor
  rw [runOn_bind_of_ok (runOn_get _)]
  simp only
  rcases s.palette[place]? with _ | color
  · exact ⟨_, rfl⟩
  simp only [runOn_bind, runOn_liftM, runOn_set]
  rcases Eye.ofLinear .normalized color with e | eye
  · exact ⟨_, rfl⟩
  simp only
  rcases shaken ctx.settings draws.draw.1 eye with e | eye'
  · exact ⟨_, rfl⟩
  simp only
  rcases eye'.toLinear with e | color'
  · exact ⟨_, rfl⟩
  · exact ⟨_, rfl⟩

theorem preserves_shakeColor {I : State α → Prop} (hI : ∀ s palette, I s → I { s with palette })
    (place : Nat) : (shakeColor ctx place).Preserves fun x : State α × Draws α => I x.1 := by
  rintro ⟨s, draws⟩ hs
  obtain ⟨palette, hpalette⟩ := exists_runOn_shakeColor ctx place s draws
  rw [hpalette]
  exact hI s palette hs

theorem keeps_shakeColor (hv : ∀ (s : State α) palette, view { s with palette } = view s)
    (place : Nat) : (shakeColor ctx place).Keeps fun x : State α × Draws α => view x.1 :=
  fun _ => preserves_shakeColor (fun s palette hs => (hv s palette).trans hs) place

theorem keeps_exploreShake :
    (exploreShake ctx).Keeps fun x : State α × Draws α => x.1.clock := by
  unfold exploreShake
  refine Keeps.bind (keeps_onState (keeps_modify fun _ => rfl)) fun _ => ?_
  refine Keeps.bind keeps_get fun x => ?_
  refine Keeps.bind (keeps_forM (keeps_shakeColor fun _ _ => rfl) _) fun _ => ?_
  refine keeps_onState (Keeps.bind (keeps_modify fun _ => rfl) fun _ => ?_)
  refine Keeps.bind (keeps_totalError overlooks_clock _) fun error => ?_
  exact keeps_modify fun _ => rfl

/-- Exploring a state leaves its strategy as it was. -/
theorem keeps_explore : (explore ctx).Keeps fun x : State α × Draws α => x.1.strategy := by
  unfold explore
  refine Keeps.bind keeps_get fun ⟨s, _⟩ => ?_
  refine ite_keeps (Keeps.bind (keeps_throw _) fun _ => ?_) ?_
  all_goals
    cases s.strategy
    case shake => exact keeps_exploreShake.map Prod.fst
    all_goals exact keeps_onState keeps_exploreTabu

end State

end Dichromat
