import Mathlib.Logic.Relation
import Mathlib.Data.List.Perm.Basic

/-!
# Schedules of a batch

The runs of a batch wait in line for a worker, are worked on, complete, and have their outcomes
taken in one after the other, in whatever order (`Pool.Step`). However this is scheduled, no run is
lost and none is taken in twice (`Pool.perm_of_ends`), and every order can come about, even with a
single worker (`Pool.exists_ends_iff_perm`). A pool comes to an end (`Pool.left_lt_of_step`), and
not before all runs are taken in (`Pool.nil_of_stuck`).
-/

namespace Dichromat.Batch

/-- Where the runs are, each by the place of its palette. -/
structure Pool where
  /-- The runs that no worker has begun, in line. -/
  waiting : List Nat
  running : List Nat
  /-- The runs that have completed and are not taken in yet. -/
  completed : List Nat
  /-- The runs that are taken in, in this order. -/
  taken : List Nat

namespace Pool

variable {workers total : Nat} {p q : Pool}

/-- A pool of which no run has begun. -/
def start (total : Nat) : Pool :=
  { waiting := List.range total, running := [], completed := [], taken := [] }

/-- What can happen next: a free worker begins the first run in line, a run completes, or one that
has completed is taken in. -/
inductive Step (workers : Nat) (p : Pool) : Pool → Prop
  | begin {place : Nat} {rest : List Nat} (hwaiting : p.waiting = place :: rest)
      (hfree : p.running.length < workers) :
      Step workers p { p with waiting := rest, running := place :: p.running }
  | complete {place : Nat} (hrunning : place ∈ p.running) :
      Step workers p
        { p with running := p.running.erase place, completed := place :: p.completed }
  | take {place : Nat} (hcompleted : place ∈ p.completed) :
      Step workers p
        { p with completed := p.completed.erase place, taken := p.taken ++ [place] }

/-- Some steps of a pool. -/
def Steps (workers : Nat) : Pool → Pool → Prop := Relation.ReflTransGen (Step workers)

/-- A pool in which a batch can end: nothing happens any more. -/
def Ends (p : Pool) (workers total : Nat) : Prop :=
  Steps workers (start total) p ∧ ∀ q, ¬ Step workers p q

/-! ### Every run is taken in once -/

/-- The places of all runs. -/
def places (p : Pool) : List Nat := p.waiting ++ p.running ++ p.completed ++ p.taken

/-- No step loses a run or doubles one. -/
theorem perm_of_step (h : Step workers p q) : q.places.Perm p.places := by
  rw [List.perm_iff_count]
  intro k
  unfold places
  cases h with
  | begin hwaiting _ =>
    simp only [hwaiting, List.count_append, List.count_cons]
    omega
  | complete hrunning =>
    have hcount := (List.perm_cons_erase hrunning).count_eq k
    simp only [List.count_append, List.count_cons] at hcount ⊢
    omega
  | take hcompleted =>
    have hcount := (List.perm_cons_erase hcompleted).count_eq k
    simp only [List.count_append, List.count_cons, List.count_nil] at hcount ⊢
    omega

theorem perm_of_steps (h : Steps workers p q) : q.places.Perm p.places := by
  induction h with
  | refl => exact .refl _
  | tail _ hstep ih => exact (perm_of_step hstep).trans ih

/-! ### The end -/

/-- How many steps there are at most. -/
def left (p : Pool) : Nat := 3 * p.waiting.length + 2 * p.running.length + p.completed.length

theorem left_lt_of_step (h : Step workers p q) : q.left < p.left := by
  unfold left
  cases h with
  | begin hwaiting _ =>
    simp only [hwaiting, List.length_cons]
    omega
  | complete hrunning =>
    have hpos := List.length_pos_of_mem hrunning
    simp only [List.length_erase_of_mem hrunning, List.length_cons]
    omega
  | take hcompleted =>
    have hpos := List.length_pos_of_mem hcompleted
    simp only [List.length_erase_of_mem hcompleted]
    omega

/-- With a worker, something can happen as long as a run is not taken in. -/
theorem nil_of_stuck (hworkers : 0 < workers) (h : ∀ q, ¬ Step workers p q) :
    p.waiting = [] ∧ p.running = [] ∧ p.completed = [] := by
  have hrunning : p.running = [] := by
    rw [List.eq_nil_iff_forall_not_mem]
    intro place hplace
    exact h _ (.complete hplace)
  have hcompleted : p.completed = [] := by
    rw [List.eq_nil_iff_forall_not_mem]
    intro place hplace
    exact h _ (.take hplace)
  refine ⟨?_, hrunning, hcompleted⟩
  rcases hwaiting : p.waiting with _ | ⟨place, rest⟩
  · rfl
  · refine absurd (Step.begin hwaiting ?_) (h _)
    rw [hrunning]
    exact hworkers

theorem perm_of_ends (hworkers : 0 < workers) (h : p.Ends workers total) :
    p.taken.Perm (List.range total) := by
  obtain ⟨hwaiting, hrunning, hcompleted⟩ := nil_of_stuck hworkers h.2
  have hperm := perm_of_steps h.1
  simpa [places, start, hwaiting, hrunning, hcompleted] using hperm

/-- From every pool a batch can go on to an end. -/
theorem exists_end (p : Pool) : ∃ q, Steps workers p q ∧ ∀ r, ¬ Step workers q r := by
  by_cases hstuck : ∀ q, ¬ Step workers p q
  · exact ⟨p, .refl, hstuck⟩
  · rw [not_forall_not] at hstuck
    obtain ⟨q, hstep⟩ := hstuck
    obtain ⟨r, hsteps, hend⟩ := exists_end q
    exact ⟨r, .head hstep hsteps, hend⟩
termination_by p.left
decreasing_by exact left_lt_of_step hstep

/-! ### Every order can come about -/

/-- A worker can see to all the runs in line. -/
theorem steps_completed (hworkers : 0 < workers) (waiting completed taken : List Nat) :
    Steps workers ⟨waiting, [], completed, taken⟩
      ⟨[], [], waiting.reverse ++ completed, taken⟩ := by
  induction waiting generalizing completed with
  | nil => exact .refl
  | cons place rest ih =>
    have hbegin : Step workers ⟨place :: rest, [], completed, taken⟩
        ⟨rest, [place], completed, taken⟩ := .begin rfl hworkers
    have hcomplete : Step workers ⟨rest, [place], completed, taken⟩
        ⟨rest, [], place :: completed, taken⟩ := by
      have h : Step workers ⟨rest, [place], completed, taken⟩ _ := .complete List.mem_cons_self
      rwa [List.erase_cons_head] at h
    rw [List.reverse_cons, List.append_assoc]
    exact .head hbegin (.head hcomplete (ih (place :: completed)))

/-- What has completed can be taken in in any order. -/
theorem steps_taken {completed order : List Nat} (h : completed.Perm order) (taken : List Nat) :
    Steps workers ⟨[], [], completed, taken⟩ ⟨[], [], [], taken ++ order⟩ := by
  induction order generalizing completed taken with
  | nil =>
    rw [h.eq_nil, List.append_nil]
    exact .refl
  | cons place rest ih =>
    have hmem : place ∈ completed := h.mem_iff.2 List.mem_cons_self
    have hrest : (completed.erase place).Perm rest := by
      have herase := h.erase place
      rwa [List.erase_cons_head] at herase
    have hsteps := ih hrest (taken ++ [place])
    rw [List.append_assoc, List.singleton_append] at hsteps
    exact .head (.take hmem) hsteps

/-- The orders in which a pool takes the runs in are all orders. -/
theorem exists_ends_iff_perm (hworkers : 0 < workers) {order : List Nat} :
    (∃ p : Pool, p.Ends workers total ∧ p.taken = order) ↔ order.Perm (List.range total) := by
  constructor
  · rintro ⟨p, hp, rfl⟩
    exact perm_of_ends hworkers hp
  · intro h
    have hcompleted := steps_completed hworkers (List.range total) [] []
    rw [List.append_nil] at hcompleted
    have htaken : Steps workers ⟨[], [], (List.range total).reverse, []⟩
        ⟨[], [], [], [] ++ order⟩ :=
      steps_taken ((List.reverse_perm _).trans h.symm) []
    refine ⟨⟨[], [], [], order⟩, ⟨hcompleted.trans htaken, fun q hq => ?_⟩, rfl⟩
    exact Nat.not_lt_zero _ (left_lt_of_step hq)

end Pool

end Dichromat.Batch
