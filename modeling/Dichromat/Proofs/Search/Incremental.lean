import Dichromat.Proofs.Exact.Phase

/-!
# Incremental errors

A Tabu search never recomputes all errors: it patches those that a step changes. From a prepared
state on, these are the errors of a full recomputation, after any number of steps and in every
iteration, in whatever numbers (`State.coherent_and_totalError_eq`).
-/

namespace Dichromat

namespace State

variable {α : Type} [ColorArith α] {ctx : Context α} {s : State α}

/-- After any number of steps, and in every iteration of a Tabu search, a prepared state is
coherent and has the error that a full recomputation finds. -/
theorem coherent_and_totalError_eq {s₀ : State α} {source : List (Triple α)} {spent : α}
    (h₀ : s₀.projector.Serves ctx.deficiency)
    (hs : (prepare ctx source spent).apply s₀ = .ok s) :
    (∀ m t, Stepped ctx { s with memory := m } t → t.Coherent ctx ∧
      ((totalError ctx true).runOn t).1 = ((totalError ctx false).runOn t).1) ∧
    ((∀ u, Iterated ctx s.opened u → mayGoOn u = .ok true → u.HasMove ctx) →
      ∀ t, Iterated ctx s.opened t → t.Coherent ctx ∧
        ((totalError ctx true).runOn t).1 = ((totalError ctx false).runOn t).1) := by
  have hc := coherent_of_prepare h₀ hs
  constructor
  · intro m t ht
    have hm : ({ s with memory := m } : State α).Coherent ctx := hc.of_eq rfl
    exact ⟨hm.stepped ht, (hm.stepped ht).totalError_eq⟩
  · intro hm t ht
    have ho : s.opened.Coherent ctx := hc.of_eq rfl
    exact ⟨ho.iterated hm ht, (ho.iterated hm ht).totalError_eq⟩

open Exact in
/-- Black and white under red-blindness, after a step and after an iteration. -/
theorem coherent_and_totalError_eq_black_white :
    ∃ (ctx : Context ℝ) (s t u : State ℝ),
      Context.ofLinear [Triple.replicate 0, Triple.replicate 1] .red Settings.standard = .ok ctx ∧
      (prepare ctx ctx.original 0).apply (State.idle ctx.deficiency .tabuSum) = .ok s ∧
      (tabuStep ctx).apply { s with memory := s.palette.map fun _ => Memory.free } = .ok t ∧
      (iterate ctx).apply s.opened = .ok u ∧
      (t.Coherent ctx ∧
        ((totalError ctx true).runOn t).1 = ((totalError ctx false).runOn t).1) ∧
      (u.Coherent ctx ∧
        ((totalError ctx true).runOn u).1 = ((totalError ctx false).runOn u).1) := by
  obtain ⟨ctx, s, hctx, hs, -, hready, -, hgo⟩ := exists_black_white
  have hopened := hready.opened
  have hfree : Sound ctx { s with memory := s.palette.map fun _ => Memory.free } :=
    ⟨⟨hopened.coherent.of_eq rfl, hopened.length, hopened.lenient⟩, hopened.palette,
      hopened.bestPalette⟩
  obtain ⟨t, ht⟩ := hfree.exists_tabuStep
  obtain ⟨u, hu⟩ := hopened.exists_iterate
  obtain ⟨hstepped, hiterated⟩ := coherent_and_totalError_eq (Projector.serves_ofDeficiency _) hs
  refine ⟨ctx, s, t, u, hctx, hs, ht, hu, hstepped _ t (.step .none hfree.hasMove ht), ?_⟩
  exact hiterated (fun v hv _ => (hopened.iterated hv).1.hasMove) u (.next .first hgo hu)

end State

end Dichromat
