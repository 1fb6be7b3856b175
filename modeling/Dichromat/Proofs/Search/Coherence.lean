import Dichromat.Proofs.Search.Phase
import Dichromat.Proofs.Search.Step

/-!
# Errors stay up to date

A state is coherent if its projections and errors are those that a full recomputation gives
(`State.Coherent`). Preparing a state makes it coherent, and every step that has a move keeps it so
(`State.Coherent.stepped`, `State.Coherent.iterated`). The error of the palette is then the same
whether or not everything is recomputed first (`State.Coherent.totalError_eq`), in whatever numbers.
-/

namespace Dichromat

namespace State

variable {α : Type} [ColorArith α] {ctx : Context α} {s t : State α}

/-! ### Coherent states -/

/-- A state whose projected colours and errors are those of its palette. -/
structure Coherent (ctx : Context α) (s : State α) : Prop where
  projector : s.projector.Serves ctx.deficiency
  /-- Every projected colour agrees with a new projection of its colour. -/
  projected : List.Forall₂
    (fun c eye => ∃ copy q, s.projector.projectCopy c = .ok (copy, q) ∧ eye.Agrees copy)
    s.palette s.projected
  /-- Every error is the error of its projected colour. -/
  errors : colorErrors ctx s.projected = .ok s.errors

theorem coherent_iff : s.Coherent ctx ↔ s.projector.Serves ctx.deficiency ∧
    List.Forall₂ ctx.deficiency.Sees s.palette s.projected ∧
    colorErrors ctx s.projected = .ok s.errors := by
  constructor
  · rintro ⟨hp, hs, he⟩
    exact ⟨hp, hs.imp fun _ _ => (Projector.sees_iff_projectCopy hp).2, he⟩
  · rintro ⟨hp, hs, he⟩
    exact ⟨hp, hs.imp fun _ _ => (Projector.sees_iff_projectCopy hp).1, he⟩

namespace Coherent

variable (hs : s.Coherent ctx)

include hs

theorem sees : List.Forall₂ ctx.deficiency.Sees s.palette s.projected := (coherent_iff.1 hs).2.1

theorem perceived : ∀ e ∈ s.projected, e.space = .perceived :=
  Deficiency.perceived_of_sees hs.sees

theorem length_projected : s.projected.length = s.palette.length := hs.projected.length_eq.symm

theorem length_errors : s.errors.length = s.projected.length :=
  (colorErrors_eq_ok_iff.1 hs.errors).1

/-- The buffers may have been used in between. -/
theorem withProjector {q : Projector α} (hq : q.Serves ctx.deficiency) :
    ({ s with projector := q } : State α).Coherent ctx :=
  coherent_iff.2 ⟨hq, hs.sees, hs.errors⟩

/-- Only the palette, what is computed from it, and the buffers matter. -/
theorem of_eq (h : (t.palette, t.projected, t.errors, t.projector) =
    (s.palette, s.projected, s.errors, s.projector)) : t.Coherent ctx := by
  simp only [Prod.mk.injEq] at h
  obtain ⟨hp, hq, he, hr⟩ := h
  exact ⟨hr ▸ hs.projector, hp ▸ hq ▸ hr ▸ hs.projected, hq ▸ he ▸ hs.errors⟩

end Coherent

theorem coherent_of_prepare {source : List (Triple α)} {spent : α}
    (hp : s.projector.Serves ctx.deficiency) (h : (prepare ctx source spent).apply s = .ok t) :
    t.Coherent ctx := by
  obtain ⟨budget, eyes, q, es, error, limit, -, hall, hes, -, -, rfl⟩ := prepare_eq_ok.1 h
  obtain ⟨hq, hsees⟩ := Projector.serves_projectAll hp hall
  exact coherent_iff.2 ⟨hq, hsees, hes⟩

/-- New projections of a coherent state have the errors that are there. -/
theorem Coherent.exists_projectAll (hs : s.Coherent ctx) {p : Projector α}
    (hp : p.Serves ctx.deficiency) :
    ∃ eyes q, p.projectAll s.palette = .ok (eyes, q) ∧ colorErrors ctx eyes = .ok s.errors := by
  have hsees : ∀ c ∈ s.palette, ∃ seen, ctx.deficiency.project c = .ok seen := by
    intro c hc
    obtain ⟨_, -, seen, hseen, -⟩ := exists_right_of_mem hs.sees hc
    exact ⟨seen, hseen⟩
  obtain ⟨eyes, q, hall⟩ := Projector.projectAll_ok hp hsees
  have hagree : List.Forall₂ Eye.Agrees s.projected eyes :=
    forall₂_of_common (fun _ _ _ h h' => h.agrees h') hs.sees
      (Projector.serves_projectAll hp hall).2
  exact ⟨eyes, q, hall, colorErrors_congr hagree hs.errors⟩

/-- The errors of a coherent state give the error of its palette, measured on its own. -/
theorem Coherent.paletteError_eq (hs : s.Coherent ctx) (mode : Mode) :
    paletteError ctx s.palette mode = mode.aggregate s.errors := by
  obtain ⟨eyes, q, hall, hes⟩ := hs.exists_projectAll (Projector.serves_ofDeficiency _)
  rw [paletteError, hall, ok_bind]
  show (colorErrors ctx eyes >>= fun errors => mode.aggregate errors) = _
  rw [hes, ok_bind]

/-- The error of a coherent state is that of a full recomputation. -/
theorem Coherent.totalError_eq (hs : s.Coherent ctx) :
    ((totalError ctx true).runOn s).1 = ((totalError ctx false).runOn s).1 := by
  obtain ⟨eyes, q, hall, hes⟩ := hs.exists_projectAll hs.projector
  rw [runOn_totalError_true,
    runOn_totalError_false (runOn_measure_eq_ok.2 ⟨eyes, q, s.errors, hall, hes, rfl⟩)]

/-! ### A step -/

/-- Some allowed move has a gain below infinity; without colours no move is needed. -/
def HasMove (ctx : Context α) (s : State α) : Prop :=
  s.palette = [] ∨ ∃ c : Candidate α, c.Tried ctx s ∧ Arith.bounded c.gain = .ok true

/-- Applying a candidate of a coherent state. -/
theorem Coherent.applyChoice_eq_ok (hs : s.Coherent ctx) {c : Candidate α} (hc : c.Tried ctx s) :
    (applyChoice ctx (.ofCandidate c)).apply s = .ok t ↔
      ∃ q es, s.projector.project c.color = .ok q ∧
        colorErrors ctx (s.projected.set c.place q.eye) = .ok es ∧
        t = { s with
          palette := s.palette.set c.place c.color, projector := q
          projected := s.projected.set c.place q.eye, errors := es
          memory := s.memory.set c.place c.memory } := by
  obtain ⟨eye, hsees, he⟩ := hc.error
  obtain ⟨m, hm, -⟩ := hc.allowed
  obtain ⟨color, _, hcolor, -, -⟩ := hc.color
  have hplace : c.place < s.projected.length :=
    hs.length_projected ▸ (List.getElem?_eq_some_iff.1 hcolor).1
  have h := State.applyChoice_eq_ok (c := .ofCandidate c) (t := t) hs.projector
    hs.perceived hs.length_errors hsees he
  exact h.trans ((and_iff_right hplace).trans (and_iff_right (List.getElem?_eq_some_iff.1 hm).1))

/-- Whatever candidate is applied, the state stays coherent. -/
theorem Coherent.applyChoice (hs : s.Coherent ctx) {c : Candidate α} (hc : c.Tried ctx s)
    (h : (applyChoice ctx (.ofCandidate c)).apply s = .ok t) : t.Coherent ctx := by
  obtain ⟨q, es, hq, hes, rfl⟩ := (hs.applyChoice_eq_ok hc).1 h
  obtain ⟨hq', hsees⟩ := Projector.serves_project hs.projector hq
  exact coherent_iff.2 ⟨hq', forall₂_set hs.sees _ hsees, hes⟩

/-- A step with a move applies an allowed candidate of least gain. -/
theorem Coherent.tabuStep_cases (hs : s.Coherent ctx) (hm : s.HasMove ctx)
    (h : (tabuStep ctx).apply s = .ok t) : (s.palette = [] ∧ t = s) ∨
      ∃ tried q c, q.Serves ctx.deficiency ∧ (∀ c, c ∈ tried ↔ c.Tried ctx s) ∧
        tried.map Candidate.move = s.permitted ∧ Candidate.firstLeast tried = .ok (some c) ∧
        (State.applyChoice ctx (.ofCandidate c)).apply { s with projector := q } = .ok t := by
  rcases hfirst : s.palette.head? with _ | first
  · have hnil := List.head?_eq_none_iff.1 hfirst
    rw [Update.apply_eq_ok, runOn_tabuStep_nil hnil] at h
    exact Or.inl ⟨hnil, (Prod.mk.inj h).2.symm⟩
  · obtain ⟨tried, q, best, htried, hbest, h⟩ := (tabuStep_eq_ok hfirst).1 h
    obtain ⟨hq, hmem⟩ := mem_candidates_iff hs.projector hs.perceived htried
    rcases hm with hnil | ⟨c, hc, hb⟩
    · exact nomatch (List.head?_eq_none_iff.2 hnil).symm.trans hfirst
    · obtain ⟨c', -, rfl⟩ := Candidate.exists_firstLeast hbest ⟨c, (hmem c).2 hc, hb⟩
      have hmoves := (tried_of_candidates hs.projector htried).2.2
      exact Or.inr ⟨tried, q, c', hq, hmem, hmoves, hbest, h⟩

theorem Coherent.tabuStep (hs : s.Coherent ctx) (hm : s.HasMove ctx)
    (h : (tabuStep ctx).apply s = .ok t) : t.Coherent ctx := by
  rcases hs.tabuStep_cases hm h with ⟨-, rfl⟩ | ⟨tried, q, c, hq, hmem, -, hc, h⟩
  · exact hs
  · have hc := (hmem c).1 (Candidate.firstLeast_mem hc)
    exact (hs.withProjector hq).applyChoice (hc.of_eq rfl) h

/-! ### Runs -/

/-- Steps one after the other, each with a move. -/
inductive Stepped (ctx : Context α) (s : State α) : State α → Prop
  | none : Stepped ctx s s
  | step {t u : State α} (h : Stepped ctx s t) (hm : t.HasMove ctx)
      (hu : (State.tabuStep ctx).apply t = .ok u) : Stepped ctx s u

theorem Coherent.stepped (hs : s.Coherent ctx) (h : Stepped ctx s t) : t.Coherent ctx := by
  induction h with
  | none => exact hs
  | step _ hm hu ih => exact ih.tabuStep hm hu

theorem Coherent.recorded {r : State α} (hs : s.Coherent ctx) (h : Recorded ctx s r) :
    r.Coherent ctx := by
  obtain ⟨_, -, ⟨-, _, -, rfl⟩ | ⟨-, rfl⟩⟩ := h
  · exact hs.of_eq rfl
  · exact hs

theorem HasMove.recorded {r : State α} (hm : s.HasMove ctx) (h : Recorded ctx s r) :
    r.HasMove ctx := by
  obtain ⟨_, -, ⟨-, _, -, rfl⟩ | ⟨-, rfl⟩⟩ := h
  · exact hm.imp_right fun ⟨c, hc, hb⟩ => ⟨c, hc.of_eq rfl, hb⟩
  · exact hm

theorem Coherent.iterate (hs : s.Coherent ctx) (hm : s.HasMove ctx)
    (h : (iterate ctx).apply s = .ok t) : t.Coherent ctx := by
  obtain ⟨r, u, hr, hu, rfl⟩ := iterate_eq_ok.1 h
  exact ((hs.recorded hr).tabuStep (hm.recorded hr) hu).of_eq rfl

theorem Coherent.iterated (hs : s.Coherent ctx)
    (hm : ∀ u, Iterated ctx s u → mayGoOn u = .ok true → u.HasMove ctx)
    (h : Iterated ctx s t) : t.Coherent ctx := by
  induction h with
  | first => exact hs
  | next h hgo hu ih => exact ih.iterate (hm _ h hgo) hu

end State

end Dichromat
