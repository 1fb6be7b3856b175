import Dichromat.Proofs.Exact.Input
import Dichromat.Proofs.Search.Descent
import Dichromat.Proofs.Search.Serving

/-!
# Preparations and explorations in any order

The states that preparations and explorations lead to, in any order and refused or not
(`State.Called`). No exploration leaves a state prepared (`State.phase_of_explore`), and what a
preparation leaves is consistent where it was not refused (`State.consistent_of_prepare`). A refused
one keeps the phase, so a state that was prepared before still counts as prepared, with the new
palette and the errors of the old one (`State.not_consistent_of_long`).
-/

namespace Dichromat

namespace State

variable {α : Type} [ColorArith α] {ctx : Context α} {strategy : Strategy} {s t : State α}

open Update Exact

/-! ### Consistent states -/

/-- A state as a preparation should leave it: its palette is the best one so far, with the
projections, the errors and the best error that measuring it gives, and nothing is iterated. -/
structure Consistent (ctx : Context α) (s : State α) : Prop where
  bestPalette : s.bestPalette = s.palette
  length_projected : s.projected.length = s.palette.length
  length_errors : s.errors.length = s.palette.length
  measured : ∃ r, (measure ctx).runOn s = (.ok (), r) ∧
    List.Forall₂ Eye.Agrees s.projected r.projected ∧ r.errors = s.errors
  bestError : ∃ e, s.strategy.mode.aggregate s.errors = .ok e ∧ s.bestError = some e
  iterated : s.iterated = 0
  bestIteration : s.bestIteration = 0

/-- Measuring a coherent state gives what is there. -/
theorem Coherent.exists_measure (hs : s.Coherent ctx) : ∃ r, (measure ctx).runOn s = (.ok (), r) ∧
    List.Forall₂ Eye.Agrees s.projected r.projected ∧ r.errors = s.errors := by
  obtain ⟨eyes, q, hall, hes⟩ := hs.exists_projectAll hs.projector
  have hagree : List.Forall₂ Eye.Agrees s.projected eyes :=
    forall₂_of_common (fun _ _ _ h h' => h.agrees h') hs.sees
      (Projector.serves_projectAll hs.projector hall).2
  exact ⟨_, runOn_measure_eq_ok.2 ⟨eyes, q, s.errors, hall, hes, rfl⟩, hagree, rfl⟩

theorem consistent_of_prepare {source : List (Triple α)} {spent : α} (hs : Served ctx s)
    (h : (prepare ctx source spent).apply s = .ok t) : Consistent ctx t := by
  have ht := coherent_of_prepare hs h
  obtain ⟨_, _, _, _, error, _, -, -, -, he, -, rfl⟩ := prepare_eq_ok.1 h
  exact
    { bestPalette := rfl
      length_projected := ht.length_projected
      length_errors := ht.length_errors.trans ht.length_projected
      measured := ht.exists_measure
      bestError := ⟨error, he, rfl⟩
      iterated := rfl
      bestIteration := rfl }

/-! ### Explorations -/

/-- Nothing that follows the beginning of a search comes back to the phase that it has left. -/
theorem phase_of_exploreTabu (s : State α) :
    ((exploreTabu ctx).runOn s).2.phase ≠ .prepared := by
  have hloop (fuel : Nat) :
      (iterateWhile ctx fuel).Preserves fun s : State α => s.phase ≠ .prepared :=
    (keeps_iterateWhile fuel).preserves fun role => role.2 ≠ .prepared
  unfold exploreTabu resetMemory
  refine Preserves.after (I := fun s : State α => s.phase ≠ .prepared) (runOn_modify _ s) nofun ?_
  refine Preserves.bind (preserves_modify fun _ hs => hs) fun _ => ?_
  refine Preserves.bind preserves_get fun s => Preserves.bind (hloop _) fun _ => ?_
  exact preserves_modify fun _ _ => nofun

theorem phase_of_exploreShake (s : State α) (draws : Draws α) :
    ((exploreShake ctx).runOn (s, draws)).2.1.phase ≠ .prepared := by
  have hshake (place : Nat) :
      (shakeColor ctx place).Preserves fun x : State α × Draws α => x.1.phase ≠ .prepared :=
    preserves_shakeColor (I := fun s => s.phase ≠ .prepared) (fun _ _ hs => hs) place
  have herror : (totalError ctx false).Preserves fun s : State α => s.phase ≠ .prepared :=
    (keeps_totalError overlooks_role false).preserves fun role => role.2 ≠ .prepared
  unfold exploreShake
  refine Preserves.after (I := fun x : State α × Draws α => x.1.phase ≠ .prepared)
    (runOn_onState _) nofun ?_
  refine Preserves.bind preserves_get fun x => Preserves.bind (preserves_forM hshake _) fun _ => ?_
  refine preserves_onState (I := fun s => s.phase ≠ .prepared) ?_
  refine Preserves.bind (preserves_modify fun _ hs => hs) fun _ => ?_
  exact Preserves.bind herror fun error => preserves_modify fun _ _ => nofun

/-- Whatever it comes to, an exploration leaves no state prepared. -/
theorem phase_of_explore (s : State α) (draws : Draws α) :
    ((explore ctx).runOn (s, draws)).2.1.phase ≠ .prepared := by
  unfold explore
  rw [runOn_bind_of_ok (runOn_get _)]
  by_cases hphase : s.phase = .prepared
  · simp only [hphase, ne_eq, not_true_eq_false, if_false]
    cases s.strategy with
    | shake => exact phase_of_exploreShake s draws
    | tabuSum | tabuMax =>
      rw [runOn_onState]
      exact phase_of_exploreTabu s
  · simp only [ne_eq, hphase, not_false_eq_true, if_true]
    exact hphase

/-! ### Refused preparations -/

/-- No palette longer than the original one has errors. -/
theorem length_le_of_colorErrors {eyes : List (Eye α)} {es : List α}
    (h : colorErrors ctx eyes = .ok es) : eyes.length ≤ ctx.distances.length := by
  obtain ⟨hlength, herrors⟩ := colorErrors_eq_ok_iff.1 h
  by_contra hlong
  have hplace : ctx.distances.length < eyes.length := Nat.lt_of_not_le hlong
  have herror := herrors _ _ _ (List.getElem?_eq_getElem hplace)
    (List.getElem?_eq_getElem (hlength ▸ hplace))
  obtain ⟨row, hrow, -⟩ := bind_eq_ok.1 herror
  have hnat : ¬ ((ctx.distances.length : Int) < 0) := by omega
  simp [Context.row, hnat] at hrow

/-- A refused preparation begins with its source or does nothing, and keeps the phase. -/
theorem runOn_prepare_eq_error {source : List (Triple α)} {spent : α} {e : Fault}
    (h : (prepare ctx source spent).runOn s = (.error e, t)) : t.phase = s.phase ∧
      (t = s ∨ t.bestPalette = t.palette ∧ t.iterated = 0 ∧ t.bestIteration = 0) := by
  rcases hbudget : iterationLimit ctx s.strategy spent with f | budget
  · rw [runOn_prepare_of_no_budget hbudget] at h
    obtain rfl := (Prod.mk.inj h).2
    exact ⟨rfl, Or.inl rfl⟩
  · obtain ⟨hpalette, hbest, hiterated, hiteration, hphase⟩ := begun_of_runOn_prepare hbudget h
    refine ⟨hphase.resolve_right nofun, Or.inr ⟨?_, hiterated, hiteration⟩⟩
    rw [hbest, hpalette]

/-- A prepared state to which a palette longer than the original one is given counts as prepared
still, and is not consistent. -/
theorem not_consistent_of_long {source : List (Triple α)} {spent budget : α}
    (hbudget : iterationLimit ctx s.strategy spent = .ok budget)
    (hlong : ctx.distances.length < source.length) (hphase : s.phase = .prepared)
    {outcome : Except Fault Unit} (h : (prepare ctx source spent).runOn s = (outcome, t)) :
    t.phase = .prepared ∧ ¬ Consistent ctx t := by
  obtain ⟨hpalette, -, -, -, hkept⟩ := begun_of_runOn_prepare hbudget h
  constructor
  · rcases hkept with hkept | rfl
    · exact hkept.trans hphase
    · exact (phase_of_prepare (apply_eq_ok.2 h)).1
  · intro ht
    obtain ⟨r, hr, hagree, -⟩ := ht.measured
    obtain ⟨eyes, _, es, -, hes, rfl⟩ := runOn_measure_eq_ok.1 hr
    have hle := length_le_of_colorErrors hes
    have hlength := hagree.length_eq.symm.trans ht.length_projected
    rw [hpalette] at hlength
    exact absurd (hlong.trans_le (hlength ▸ hle)) (Nat.lt_irrefl _)

/-! ### Calls -/

/-- The states that preparations and explorations lead to, whatever they come to. -/
inductive Called (ctx : Context α) (strategy : Strategy) : State α → Prop
  | idle : Called ctx strategy (State.idle ctx.deficiency strategy)
  | prepare {s : State α} (h : Called ctx strategy s) (source : List (Triple α)) (spent : α) :
      Called ctx strategy ((State.prepare ctx source spent).runOn s).2
  | explore {s : State α} (h : Called ctx strategy s) (draws : Draws α) :
      Called ctx strategy ((State.explore ctx).runOn (s, draws)).2.1

theorem called_of_prepare {source : List (Triple α)} {spent : α} (hs : Called ctx strategy s)
    (h : (prepare ctx source spent).apply s = .ok t) : Called ctx strategy t := by
  have ht := Called.prepare hs source spent
  rwa [apply_eq_ok.1 h] at ht

theorem served_of_called (h : Called ctx strategy s) : Served ctx s := by
  induction h with
  | idle => exact Projector.serves_ofDeficiency _
  | prepare _ source spent ih => exact preserves_prepare source spent _ ih
  | explore _ draws ih => exact preserves_explore (_, draws) ih

/-- A state that counts as prepared holds its palette as the best one and has iterated nothing. It
is consistent, unless a preparation has been refused when it counted as prepared already. -/
theorem consistent_of_called (h : Called ctx strategy t) (hphase : t.phase = .prepared) :
    t.bestPalette = t.palette ∧ t.iterated = 0 ∧ t.bestIteration = 0 ∧
      (Consistent ctx t ∨ ∃ s source spent e, Called ctx strategy s ∧ s.phase = .prepared ∧
        (prepare ctx source spent).runOn s = (.error e, t)) := by
  induction h with
  | idle => exact nomatch hphase
  | prepare hs source spent ih =>
    rename_i s
    rcases hrun : (prepare ctx source spent).runOn s with ⟨e | _, u⟩
    · rw [hrun] at hphase
      obtain ⟨hkept, hfields⟩ := runOn_prepare_eq_error hrun
      have hprepared := hkept.symm.trans hphase
      have hlast : Consistent ctx u ∨ ∃ s source spent e, Called ctx strategy s ∧
          s.phase = .prepared ∧ (prepare ctx source spent).runOn s = (.error e, u) :=
        Or.inr ⟨s, source, spent, e, hs, hprepared, hrun⟩
      rcases hfields with rfl | ⟨hpalette, hiterated, hiteration⟩
      · obtain ⟨hpalette, hiterated, hiteration, -⟩ := ih hprepared
        exact ⟨hpalette, hiterated, hiteration, hlast⟩
      · exact ⟨hpalette, hiterated, hiteration, hlast⟩
    · have hu := consistent_of_prepare (served_of_called hs) (apply_eq_ok.2 hrun)
      exact ⟨hu.bestPalette, hu.iterated, hu.bestIteration, Or.inl hu⟩
  | explore _ draws _ => exact absurd hphase (phase_of_explore _ draws)

/-- Black and white for a red-blind search. -/
theorem consistent_of_called_black_white : ∃ (ctx : Context ℝ) (s : State ℝ),
    Context.ofLinear [Triple.replicate 0, Triple.replicate 1] .red Settings.standard = .ok ctx ∧
      Called ctx .tabuSum s ∧ s.phase = .prepared ∧ s.palette ≠ [] ∧ s.bestPalette = s.palette ∧
      s.iterated = 0 ∧ s.bestIteration = 0 ∧ Consistent ctx s := by
  obtain ⟨ctx, s, hctx, hs, -, -, hne, -⟩ := exists_black_white
  have hcalled : Called ctx .tabuSum s := called_of_prepare .idle hs
  have hphase := (phase_of_prepare hs).1
  obtain ⟨hpalette, hiterated, hiteration, -⟩ := consistent_of_called hcalled hphase
  have hconsistent := consistent_of_prepare (served_of_called .idle) hs
  exact ⟨ctx, s, hctx, hcalled, hphase, hne, hpalette, hiterated, hiteration, hconsistent⟩

/-- Black alone is prepared, and then black and white, of which white has no original colour. -/
theorem not_consistent_black : ∃ (ctx : Context ℝ) (s t : State ℝ) (e : Fault),
    Context.ofGamma [[0, 0, 0]] .none Settings.standard = .ok ctx ∧
      (prepare ctx ctx.original 0).apply (State.idle ctx.deficiency .tabuSum) = .ok s ∧
      (prepare ctx [Triple.replicate 0, Triple.replicate 1] 0).runOn s = (.error e, t) ∧
      Called ctx .tabuSum t ∧ t.phase = .prepared ∧ ¬ Consistent ctx t := by
  have hrange : Palette.InRange [[0, 0, 0]] := by
    intro color hcolor
    obtain rfl := List.mem_singleton.1 hcolor
    simp
  obtain ⟨ctx, hctx, hregular, horiginal, -⟩ :=
    exists_ofGamma hrange .none standard_threshold_nonneg
  have hidle : Called ctx .tabuSum (State.idle ctx.deficiency .tabuSum) := .idle
  obtain ⟨s, hs⟩ := exists_prepare hregular (served_of_called hidle) hregular.original 0
  have hcalled := called_of_prepare hidle hs
  have hsize : ctx.distances.length = 1 := by
    rw [distances_length hregular.distances]
    exact (mapM_eq_ok_iff.1 horiginal).length_eq.symm
  have hlong : ctx.distances.length < [Triple.replicate (0 : ℝ), Triple.replicate 1].length := by
    rw [hsize]
    decide
  have hnext := Called.prepare hcalled [Triple.replicate 0, Triple.replicate 1] 0
  rcases hrun : (prepare ctx [Triple.replicate 0, Triple.replicate 1] 0).runOn s with ⟨e | _, t⟩
  all_goals
    have ht := not_consistent_of_long (iterationLimit_eq ..) hlong (phase_of_prepare hs).1 hrun
    rw [hrun] at hnext
  · exact ⟨ctx, s, t, e, hctx, hs, hrun, hnext, ht⟩
  · have hconsistent := consistent_of_prepare (served_of_called hcalled) (apply_eq_ok.2 hrun)
    exact absurd hconsistent ht.2

end State

end Dichromat
