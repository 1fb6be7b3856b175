import Dichromat.Proofs.Exact.Error
import Dichromat.Proofs.Search.Coherence

/-!
# Steps in exact arithmetic

Nothing in a step is refused: every allowed move of a coherent state gives a candidate, one of them
has the least gain (`exists_firstLeast`), and any of them can be applied (`exists_applyChoice`), so
that a step with a move goes through (`exists_tabuStep`).
-/

noncomputable section

namespace Dichromat

/-- One memory for each colour, with an entry for each channel. -/
structure State.Remembers {α : Type} (s : State α) : Prop where
  length : s.memory.length = s.palette.length
  entries : ∀ m ∈ s.memory, m.length = 3

namespace Exact

variable {ctx : Context ℝ} {s t : State ℝ}

open State

/-! ### The least gain -/

theorem isBelow_some (e b : ℝ) : isBelow e (some b) = .ok (decide (e < b)) := rfl

theorem isBelow_none (e : ℝ) : isBelow e none = .ok true := rfl

theorem better_some (b c : Candidate ℝ) :
    Candidate.better (some b) c = .ok (some (if c.gain < b.gain then c else b)) := by
  rw [Candidate.better, Option.map_some, isBelow_some, ok_bind]
  by_cases h : c.gain < b.gain
  · rw [if_pos h, if_pos (decide_eq_true h)]
    rfl
  · rw [if_neg h, if_neg (by rwa [decide_eq_true_eq])]
    rfl

theorem exists_foldlM_better (cs : List (Candidate ℝ)) (b : Candidate ℝ) :
    ∃ c, cs.foldlM Candidate.better (some b) = .ok (some c) ∧ c.gain ≤ b.gain ∧
      ∀ c' ∈ cs, c.gain ≤ c'.gain := by
  induction cs generalizing b with
  | nil => exact ⟨b, rfl, le_rfl, nofun⟩
  | cons x cs ih =>
    obtain ⟨c, hc, hle, hall⟩ := ih (if x.gain < b.gain then x else b)
    have hx : c.gain ≤ x.gain ∧ c.gain ≤ b.gain := by
      split_ifs at hle with h
      · exact ⟨hle, hle.trans h.le⟩
      · exact ⟨hle.trans (not_lt.1 h), hle⟩
    refine ⟨c, ?_, hx.2, List.forall_mem_cons.2 ⟨hx.1, hall⟩⟩
    rw [List.foldlM_cons, better_some, ok_bind, hc]

/-- Of some candidates the scan finds one of least gain. -/
theorem exists_firstLeast {cs : List (Candidate ℝ)} (hne : cs ≠ []) :
    ∃ c ∈ cs, Candidate.firstLeast cs = .ok (some c) ∧ ∀ c' ∈ cs, c.gain ≤ c'.gain := by
  rcases cs with _ | ⟨b, cs⟩
  · exact absurd rfl hne
  · obtain ⟨c, hc, hle, hall⟩ := exists_foldlM_better cs b
    have h : Candidate.firstLeast (b :: cs) = .ok (some c) := by
      show (b :: cs).foldlM Candidate.better none = _
      rw [List.foldlM_cons]
      exact hc
    exact ⟨c, Candidate.firstLeast_mem h, h, List.forall_mem_cons.2 ⟨hle, hall⟩⟩

/-! ### Candidates -/

/-- A moved channel lies between 0 and 1. -/
theorem moved_eq (step x : ℝ) (d : Direction) :
    moved step x d = .ok (min (max (x + d.sign * step) 0) 1) := by
  simp only [moved, calc_whole, calc_mul, calc_add, calc_scientific, calc_max, calc_min,
    scientific_zero, scientific_one]

theorem moved_mem {step x y : ℝ} {d : Direction} (h : moved step x d = .ok y) :
    y ∈ Set.Icc (0 : ℝ) 1 := by
  rw [moved_eq] at h
  exact Except.ok.inj h ▸ clamp_mem _

section Candidates

variable (hs : s.Coherent ctx)

include hs

theorem measures : Measures ctx s.projected.length :=
  measures_of_colorErrors hs.perceived hs.errors

theorem exists_candidate {p : Projector ℝ} (hp : p.Serves ctx.deficiency) {place : ℕ}
    (hplace : place < s.palette.length) (color : Triple ℝ) (k : Channel) (d : Direction) :
    ∃ c q, (candidate ctx s place color k d).run p = .ok (c, q) ∧ q.Serves ctx.deficiency := by
  have hx := moved_eq ctx.settings.step (color.get k) d
  generalize min (max (color.get k + d.sign * ctx.settings.step) 0) 1 = x at hx
  obtain ⟨e, he, -⟩ := project_ok ctx.deficiency (color.set k x)
  obtain ⟨q, hq⟩ := Projector.project_ok hp he
  have hq' := Projector.serves_project hp hq
  rw [← hs.length_projected] at hplace
  have herror := colorError_eq (measures hs) hplace hq'.1.perceived hs.perceived
  have hplace' : place < s.errors.length := hs.length_errors ▸ hplace
  have hbefore := List.getElem?_eq_getElem hplace'
  refine ⟨{ place, channel := k, direction := d, color := color.set k x
            error := errorAt ctx s.projected place q.eye
            gain := errorAt ctx s.projected place q.eye - s.errors[place] }, q, ?_, hq'.1⟩
  simp only [candidate, run_bind_eq_ok, run_liftM_eq_ok, run_get_eq_ok, run_set_eq_ok]
  refine ⟨x, p, ⟨hx, rfl⟩, p, p, ⟨rfl, rfl⟩, q, p, ⟨hq, rfl⟩, ⟨⟩, q, rfl, _, q, ⟨herror, rfl⟩, ?_⟩
  simp only [hbefore, run_bind_eq_ok, run_liftM_eq_ok, run_pure_eq_ok]
  exact ⟨_, q, ⟨sub_eq _ _, rfl⟩, rfl, rfl⟩

omit hs in
theorem exists_allowed {m : Memory} (hm : m.length = 3) (k : Channel) (d : Direction) :
    ∃ allowed, allows m k d = .ok allowed := by
  have hk : k.index < m.length := by
    rw [hm]
    cases k <;> decide
  rw [allows, List.getElem?_eq_getElem hk]
  exact ⟨_, rfl⟩

theorem exists_candidate? {p : Projector ℝ} (hp : p.Serves ctx.deficiency) {place : ℕ}
    (hplace : place < s.palette.length) (color : Triple ℝ) {m : Memory} (hm : m.length = 3)
    (k : Channel) (d : Direction) :
    ∃ o q, (candidate? ctx s place color m k d).run p = .ok (o, q) ∧ q.Serves ctx.deficiency := by
  obtain ⟨allowed, hallowed⟩ := exists_allowed hm k d
  unfold candidate?
  simp only [run_bind_eq_ok, run_liftM_eq_ok, hallowed]
  cases allowed with
  | true =>
    obtain ⟨c, q, hc, hq⟩ := exists_candidate hs hp hplace color k d
    refine ⟨some c, q, ⟨true, p, ⟨rfl, rfl⟩, ?_⟩, hq⟩
    simp only [if_true, run_bind_eq_ok, run_pure_eq_ok]
    exact ⟨c, q, hc, rfl, rfl⟩
  | false => exact ⟨none, p, ⟨false, p, ⟨rfl, rfl⟩, rfl⟩, hp⟩

theorem exists_candidatesOf (hr : s.Remembers) {p : Projector ℝ} (hp : p.Serves ctx.deficiency)
    {place : ℕ} (hplace : place < s.palette.length) (color : Triple ℝ) :
    ∃ cs q, (candidatesOf ctx s color place).run p = .ok (cs, q) ∧ q.Serves ctx.deficiency := by
  have hplace' : place < s.memory.length := hr.length ▸ hplace
  have hm : s.memory[place].length = 3 := hr.entries _ (List.getElem_mem hplace')
  have hmove (y) (_ : y ∈ moves) (p : Projector ℝ) (hp : p.Serves ctx.deficiency) :=
    exists_candidate? hs hp hplace color hm y.1 y.2
  obtain ⟨tried, q, ht, hq⟩ := run_mapM_ok hmove hp
  refine ⟨tried.filterMap id, q, ?_, hq⟩
  unfold candidatesOf
  simp only [List.getElem?_eq_getElem hplace', run_bind_eq_ok, run_pure_eq_ok]
  exact ⟨tried, q, ht, rfl, rfl⟩

theorem exists_candidates (hr : s.Remembers) :
    ∃ tried q, (candidates ctx s).run s.projector = .ok (tried, q) := by
  have hplace {x : Triple ℝ × ℕ} (hx : x ∈ s.palette.zipIdx) : x.2 < s.palette.length :=
    (List.getElem?_eq_some_iff.1 (List.mem_zipIdx_iff_getElem?.1 hx)).1
  have hcolor (x) (hx : x ∈ s.palette.zipIdx) (p : Projector ℝ) (hp : p.Serves ctx.deficiency) :=
    exists_candidatesOf hs hr hp (hplace hx) x.1
  obtain ⟨groups, q, hg, -⟩ := run_mapM_ok hcolor hs.projector
  refine ⟨groups.flatten, q, ?_⟩
  unfold candidates
  simp only [run_bind_eq_ok, run_pure_eq_ok]
  exact ⟨groups, q, hg, rfl, rfl⟩

/-- Any candidate of a coherent state can be applied. -/
theorem exists_applyChoice {c : Candidate ℝ} (hc : c.Tried ctx s) :
    ∃ t, (State.applyChoice ctx (.ofCandidate c)).apply s = .ok t := by
  obtain ⟨e, he, -⟩ := project_ok ctx.deficiency c.color
  obtain ⟨q, hq⟩ := Projector.project_ok hs.projector he
  have hq' := (Projector.serves_project hs.projector hq).1.perceived
  have hperceived : ∀ x ∈ s.projected.set c.place q.eye, x.space = .perceived := by
    intro x hx
    rcases List.mem_or_eq_of_mem_set hx with hx | rfl
    · exact hs.perceived x hx
    · exact hq'
  have hm : Measures ctx (s.projected.set c.place q.eye).length :=
    (List.length_set ..).symm ▸ measures hs
  exact ⟨_, (hs.applyChoice_eq_ok hc).2 ⟨q, _, hq, colorErrors_eq hm hperceived, rfl⟩⟩

/-- A step with an allowed move goes through. -/
theorem exists_tabuStep (hr : s.Remembers) {c : Candidate ℝ} (hc : c.Tried ctx s) :
    ∃ t, (State.tabuStep ctx).apply s = .ok t := by
  obtain ⟨first, hfirst⟩ : ∃ first, s.palette.head? = some first :=
    ⟨_, List.head?_eq_some_head hc.palette_ne_nil⟩
  obtain ⟨tried, q, htried⟩ := exists_candidates hs hr
  obtain ⟨hq, hmem⟩ := mem_candidates_iff hs.projector hs.perceived htried
  obtain ⟨winner, hwinner, hbest, -⟩ := exists_firstLeast (List.ne_nil_of_mem ((hmem c).2 hc))
  have hs' := hs.withProjector hq
  obtain ⟨t, ht⟩ := exists_applyChoice hs' (((hmem winner).1 hwinner).of_eq rfl)
  exact ⟨t, (tabuStep_eq_ok hfirst).2 ⟨tried, q, some winner, htried, hbest, ht⟩⟩

end Candidates

end Exact

end Dichromat

end
