import Dichromat.Proofs.Search.Coherence
import Dichromat.Proofs.Search.Frame

/-!
# The moves of a search

A step looks at the palette with its projections, errors and memories, and at nothing else, so it
makes the same move whatever the clock of its state and its best palette are
(`State.commutes_tabuStep`). The working palette of a Tabu search is therefore that of its moves
alone (`State.after`), whatever is recorded in between.
-/

namespace Dichromat

namespace State

variable {α : Type} [ColorArith α] {ctx : Context α} {s t u v : State α}

open Update

/-! ### What a step works on -/

/-- A state with the palette of another one and all that a step works on. -/
def withWork (s v : State α) : State α :=
  { s with
    projector := v.projector, palette := v.palette, projected := v.projected, errors := v.errors
    memory := v.memory }

section Commutes

variable (s)

theorem commutes_recolor (c : Choice α) : (recolor c).Commutes s.withWork := by
  unfold recolor
  refine Commutes.bind (commutes_modify fun _ => rfl) fun _ => ?_
  refine commutes_get_bind (fun _ => rfl) fun v => ?_
  split
  · refine commutes_get_bind (fun _ => rfl) fun v => ?_
    refine Commutes.bind (commutes_liftM _) fun q => Commutes.bind (commutes_liftM _) fun eye => ?_
    exact commutes_modify fun _ => rfl
  · exact commutes_throw _

theorem commutes_refresh (projected : List (Eye α)) (l : Nat) (eye : Eye α) :
    (refresh ctx projected l eye).Commutes s.withWork := by
  unfold refresh
  refine Commutes.bind (commutes_liftM _) fun error => ?_
  refine commutes_get_bind (fun _ => rfl) fun v => ?_
  exact Commutes.bind (commutes_liftM _) fun _ => commutes_modify fun _ => rfl

theorem commutes_renewErrors (c : Choice α) : (renewErrors ctx c).Commutes s.withWork := by
  unfold renewErrors refreshOthers
  refine commutes_get_bind (fun _ => rfl) fun v => Commutes.bind (commutes_liftM _) fun _ => ?_
  refine Commutes.bind (commutes_modify fun _ => rfl) fun _ => ?_
  refine commutes_get_bind (fun _ => rfl) fun v => commutes_forM (fun x => ?_) _
  split
  split
  · exact commutes_pure _
  · exact commutes_refresh s _ _ _

omit [ColorArith α] in
theorem commutes_remember (c : Choice α) : (remember c).Commutes s.withWork := by
  unfold remember
  refine commutes_get_bind (fun _ => rfl) fun v => Commutes.bind (commutes_liftM _) fun _ => ?_
  exact commutes_modify fun _ => rfl

/-- A step does the same whatever its state is apart from what it works on. -/
theorem commutes_tabuStep : (tabuStep ctx).Commutes s.withWork := by
  unfold tabuStep applyChoice
  refine commutes_get_bind (fun _ => rfl) fun v => ?_
  split
  · exact commutes_pure _
  · refine Commutes.bind (commutes_liftM _) fun tried => ?_
    refine Commutes.bind (commutes_modify fun _ => rfl) fun _ => ?_
    refine Commutes.bind (commutes_liftM _) fun best => ?_
    refine Commutes.bind (commutes_recolor s _) fun _ => ?_
    exact Commutes.bind (commutes_renewErrors s _) fun _ => commutes_remember s _

end Commutes

/-! ### Moves one after the other -/

/-- The state that so many moves of a Tabu search lead to, if nothing is recorded in between. -/
def after (ctx : Context α) (s : State α) : Nat → Except Fault (State α)
  | 0 => .ok s.opened
  | n + 1 => do (tabuStep ctx).apply (← after ctx s n)

/-- The palette's error after so many moves. -/
def errorAfter (ctx : Context α) (s : State α) (n : Nat) : Calc α := do
  s.strategy.mode.aggregate (← after ctx s n).errors

/-- The states that a Tabu search goes through, by the number of its iterations so far. -/
inductive Rounds (ctx : Context α) (s : State α) : Nat → State α → Prop
  | none : Rounds ctx s 0 s
  | next {n : Nat} {t u : State α} (h : Rounds ctx s n t) (hgo : mayGoOn t = .ok true)
      (hu : (iterate ctx).apply t = .ok u) : Rounds ctx s (n + 1) u

theorem Rounds.iterated {n : Nat} (h : Rounds ctx s n t) : Iterated ctx s t := by
  induction h with
  | none => exact .first
  | next _ hgo hu ih => exact ih.next hgo hu

theorem exists_rounds (h : Iterated ctx s t) : ∃ n, Rounds ctx s n t := by
  induction h with
  | first => exact ⟨0, .none⟩
  | next _ hgo hu ih =>
    obtain ⟨n, hn⟩ := ih
    exact ⟨n + 1, hn.next hgo hu⟩

/-- What is recorded during a search does not change its moves. -/
theorem after_of_rounds {n : Nat} (h : Rounds ctx s.opened n t) :
    after ctx s n = .ok (s.opened.withWork t) := by
  induction h with
  | none => rfl
  | @next n v _ _ _ hu ih =>
    obtain ⟨r, u, ⟨_, -, hr⟩, hstep, rfl⟩ := iterate_eq_ok.1 hu
    have hwork : s.opened.withWork r = s.opened.withWork v := by
      rcases hr with ⟨-, _, -, rfl⟩ | ⟨-, rfl⟩ <;> rfl
    have hnext := (commutes_tabuStep s.opened).apply hstep
    rw [hwork] at hnext
    rw [after, ih]
    exact hnext

theorem errorAfter_of_rounds {n : Nat} (h : Rounds ctx s.opened n t) :
    errorAfter ctx s n = s.strategy.mode.aggregate t.errors := by
  rw [errorAfter, after_of_rounds h]
  rfl

/-- As long as every move is one that has been weighed, the errors stay those of the palette. -/
theorem coherent_of_after {n : Nat} (hs : s.Coherent ctx)
    (hmoves : ∀ k < n, ∀ v, after ctx s k = .ok v → v.HasMove ctx) (h : after ctx s n = .ok t) :
    t.Coherent ctx := by
  induction n generalizing t with
  | zero =>
    obtain rfl := Except.ok.inj h
    exact hs.of_eq rfl
  | succ n ih =>
    obtain ⟨v, hv, ht⟩ := bind_eq_ok.1 h
    have hcoherent := ih (fun k hk => hmoves k (Nat.lt_succ_of_lt hk)) hv
    exact hcoherent.tabuStep (hmoves n n.lt_succ_self v hv) ht

end State

end Dichromat
