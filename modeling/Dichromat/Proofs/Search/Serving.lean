import Dichromat.Proofs.Search.Coherence
import Dichromat.Proofs.Search.Frame

/-!
# The buffers after a search

A state projects colours through buffers of its own. A preparation and an exploration leave them
serving its deficiency whatever they come to (`State.preserves_prepare`, `State.preserves_explore`),
even where a search finds no move and its errors are no longer up to date. So the next preparation
notes the error that its palette has when it is measured on its own
(`State.paletteError_of_prepare`).
-/

namespace Dichromat

namespace State

variable {α : Type} [ColorArith α] {ctx : Context α} {s t : State α}

open Update

/-! ### A preparation -/

/-- A prepared state notes the error of its palette, measured on its own. -/
theorem paletteError_of_prepare {source : List (Triple α)} {spent : α}
    (hs : s.projector.Serves ctx.deficiency) (h : (prepare ctx source spent).apply s = .ok t) :
    ∃ e, t.bestError = some e ∧ paletteError ctx source s.strategy.mode = .ok e := by
  have hcoherent := coherent_of_prepare hs h
  obtain ⟨_, _, _, _, e, _, -, -, -, he, -, rfl⟩ := prepare_eq_ok.1 h
  exact ⟨e, rfl, (hcoherent.paletteError_eq s.strategy.mode).trans he⟩

theorem phase_of_prepare {source : List (Triple α)} {spent : α}
    (h : (prepare ctx source spent).apply s = .ok t) :
    t.phase = .prepared ∧ t.palette = source := by
  obtain ⟨_, _, _, _, _, _, -, -, -, -, -, rfl⟩ := prepare_eq_ok.1 h
  exact ⟨rfl, rfl⟩

/-! ### A step -/

/-- The buffers of a state serve the deficiency of its context. -/
def Served (ctx : Context α) (s : State α) : Prop := s.projector.Serves ctx.deficiency

theorem served_idle (strategy : Strategy) : Served ctx (State.idle ctx.deficiency strategy) :=
  Projector.serves_ofDeficiency _

theorem preserves_measure : (measure ctx).Preserves (Served ctx) := by
  unfold measure
  refine preserves_get_bind fun s hs => ?_
  rw [runOn_bind, runOn_liftM]
  rcases hall : s.projector.projectAll s.palette with e | ⟨eyes, q⟩
  · exact hs
  have hq : q.Serves ctx.deficiency := (Projector.serves_projectAll hs hall).1
  have hseen : (modify fun s => { s with projector := q, projected := eyes } :
      Update (State α) PUnit).Preserves (Served ctx) := preserves_modify fun _ _ => hq
  refine hseen.bind (fun _ => ?_) s hs
  exact Preserves.bind (preserves_liftM _) fun errors => preserves_modify fun _ hs => hs

theorem preserves_totalError (upToDate : Bool) :
    (totalError ctx upToDate).Preserves (Served ctx) := by
  unfold totalError
  have hrest : (get >>= fun s => liftM (s.strategy.mode.aggregate s.errors) :
      Update (State α) α).Preserves (Served ctx) :=
    Preserves.bind preserves_get fun s => preserves_liftM _
  exact ite_preserves hrest (Preserves.bind preserves_measure fun _ => hrest)

theorem preserves_recolor (c : Choice α) : (recolor c).Preserves (Served ctx) := by
  unfold recolor
  refine Preserves.bind (preserves_modify fun _ hs => hs) fun _ => ?_
  refine preserves_get_bind fun s hs => ?_
  split
  · rw [runOn_bind_of_ok (runOn_get s), runOn_bind, runOn_liftM]
    rcases hproject : s.projector.project c.color with e | q
    · exact hs
    have hq : q.Serves ctx.deficiency := (Projector.serves_project hs hproject).1
    refine Preserves.bind (I := Served ctx) (preserves_liftM _) (fun eye => ?_) s hs
    exact preserves_modify fun _ _ => hq
  · exact hs

/-- Of the parts of a step only the new colour uses the buffers. -/
theorem preserves_applyChoice (c : Choice α) : (applyChoice ctx c).Preserves (Served ctx) := by
  unfold applyChoice
  have hrenew : (renewErrors ctx c).Preserves (Served ctx) :=
    (keeps_renewErrors overlooksErrors_projector.errors c).preserves
      (Projector.Serves · ctx.deficiency)
  have hremember : (remember c).Preserves (Served ctx) :=
    (keeps_remember overlooksErrors_projector c).preserves (Projector.Serves · ctx.deficiency)
  exact (preserves_recolor c).bind fun _ => hrenew.bind fun _ => hremember

theorem preserves_tabuStep : (tabuStep ctx).Preserves (Served ctx) := by
  unfold tabuStep
  refine preserves_get_bind fun s hs => ?_
  split
  · exact hs
  · rw [runOn_bind, runOn_liftM]
    rcases htried : (candidates ctx s).run s.projector with e | ⟨tried, q⟩
    · exact hs
    have hq : q.Serves ctx.deficiency := (tried_of_candidates hs htried).1
    have htried : (modify fun s => { s with projector := q } :
        Update (State α) PUnit).Preserves (Served ctx) := preserves_modify fun _ _ => hq
    refine htried.bind (fun _ => ?_) s hs
    exact Preserves.bind (preserves_liftM _) fun best => preserves_applyChoice _

/-! ### A phase -/

theorem preserves_recordBest (error : α) : (recordBest ctx error).Preserves (Served ctx) := by
  have hkeeps : (recordBest ctx error).Keeps State.projector :=
    keeps_recordBest (fun _ _ _ _ _ => rfl) error
  exact hkeeps.preserves (Projector.Serves · ctx.deficiency)

theorem preserves_iterate : (iterate ctx).Preserves (Served ctx) := by
  unfold iterate
  have hstep : (tabuStep ctx >>= fun _ =>
      modify fun s => { s with iterated := s.iterated + 1 } : Update (State α) PUnit).Preserves
      (Served ctx) :=
    Preserves.bind preserves_tabuStep fun _ => preserves_modify fun _ hs => hs
  refine Preserves.bind (preserves_totalError true) fun error => ?_
  refine Preserves.bind preserves_get fun s => Preserves.bind (preserves_liftM _) fun below => ?_
  exact ite_preserves (Preserves.bind (preserves_recordBest _) fun _ => hstep) hstep

theorem preserves_iterateWhile (fuel : Nat) :
    (iterateWhile ctx fuel).Preserves (Served ctx) := by
  induction fuel with
  | zero =>
    unfold iterateWhile
    refine Preserves.bind preserves_get fun s => Preserves.bind (preserves_liftM _) fun go => ?_
    exact ite_preserves (preserves_throw _) (preserves_pure _)
  | succ fuel ih =>
    unfold iterateWhile
    refine Preserves.bind preserves_get fun s => Preserves.bind (preserves_liftM _) fun go => ?_
    exact ite_preserves (Preserves.bind preserves_iterate fun _ => ih) (preserves_pure _)

theorem preserves_exploreTabu : (exploreTabu ctx).Preserves (Served ctx) := by
  unfold exploreTabu resetMemory
  refine Preserves.bind (preserves_modify fun _ hs => hs) fun _ => ?_
  refine Preserves.bind (preserves_modify fun _ hs => hs) fun _ => ?_
  refine Preserves.bind preserves_get fun s => Preserves.bind (preserves_iterateWhile _) fun _ => ?_
  exact preserves_modify fun _ hs => hs

theorem preserves_exploreShake :
    (exploreShake ctx).Preserves fun x : State α × Draws α => Served ctx x.1 := by
  unfold exploreShake
  have hshake (place : Nat) :
      (shakeColor ctx place).Preserves fun x : State α × Draws α => Served ctx x.1 :=
    preserves_shakeColor (fun _ _ hs => hs) place
  refine Preserves.bind (preserves_onState (preserves_modify fun _ hs => hs)) fun _ => ?_
  refine Preserves.bind preserves_get fun x => Preserves.bind (preserves_forM hshake _) fun _ => ?_
  refine preserves_onState (Preserves.bind (preserves_modify fun _ hs => hs) fun _ => ?_)
  exact Preserves.bind (preserves_totalError _) fun error => preserves_modify fun _ hs => hs

/-- Whatever it comes to, an exploration leaves the buffers serving the deficiency. -/
theorem preserves_explore :
    (explore ctx).Preserves fun x : State α × Draws α => Served ctx x.1 := by
  unfold explore
  refine Preserves.bind preserves_get fun ⟨s, _⟩ => ?_
  refine ite_preserves (Preserves.bind (preserves_throw _) fun _ => ?_) ?_
  all_goals
    cases s.strategy
    case shake => exact preserves_exploreShake
    all_goals exact preserves_onState preserves_exploreTabu

theorem preserves_prepare (source : List (Triple α)) (spent : α) :
    (prepare ctx source spent).Preserves (Served ctx) := by
  unfold prepare shiftStallLimit
  refine Preserves.bind preserves_get fun s => Preserves.bind (preserves_liftM _) fun limit => ?_
  refine Preserves.bind (preserves_modify fun _ hs => hs) fun _ => ?_
  refine Preserves.bind (preserves_totalError _) fun error => ?_
  refine Preserves.bind (preserves_modify fun _ hs => hs) fun _ => ?_
  refine Preserves.bind (Preserves.bind preserves_get fun s => ?_) fun _ => ?_
  · exact Preserves.bind (preserves_liftM _) fun limit => preserves_modify fun _ hs => hs
  · exact preserves_modify fun _ hs => hs

end State

end Dichromat
