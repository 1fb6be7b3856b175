import Dichromat.Batch
import Dichromat.Proofs.Batch.Pool
import Dichromat.Proofs.Run.Checked

/-!
# Batches under every schedule

The outcome of a run of a batch is that of its palette alone (`optimize_eq_collect`), and it is
stored at the place of its palette whenever it is taken in (`Progress.Shows.complete`). So what a
batch returns does not depend on the schedule of its workers (`optimize_scheduled`).
-/

namespace Dichromat

/-- The outcome of a run that a batch can take in: a value, a refusal, or a fault of arithmetic. -/
def Settles {β : Type} (outcome : Except Fault β) : Prop :=
  ∀ e, outcome = .error e → (e.isRefusal || e.isArithmetic) = true

theorem settles_ok {β : Type} (a : β) : Settles (.ok a) := nofun

theorem settles_error {β : Type} {e : Fault} :
    Settles (.error e : Except Fault β) ↔ (e.isRefusal || e.isArithmetic) = true := by
  constructor
  · intro h
    exact h e rfl
  · intro h f hf
    exact Except.error.inj hf ▸ h

theorem settles_map {β γ : Type} {outcome : Except Fault β} (f : β → γ) :
    Settles (outcome.map f) ↔ Settles outcome := by
  cases outcome with
  | ok a => exact iff_of_true (settles_ok _) (settles_ok _)
  | error e => exact settles_error.trans settles_error.symm

/-! ### Names of deficiencies -/

section Checks

variable {α : Type} [ColorArith α] {read : Value → α}

theorem Deficiency.ofName_name (d : Deficiency) : Deficiency.ofName d.name = .ok d := by
  cases d <;> decide

/-- Runs are given a deficiency by its own name, whatever name was given for it. -/
theorem optimizeBy_name {name : Value} {d : Deficiency} (h : Deficiency.ofValue name = .ok d)
    (palette : Value) (settings : Settings Value) (draws? : Option (Draws α)) :
    optimizeBy read palette (.text d.name) settings draws? =
      optimizeBy read palette name settings draws? := by
  have hname : Deficiency.ofValue (.text d.name) = .ok d := d.ofName_name
  unfold optimizeBy
  rw [hname, h]

/-- A palette that is not accepted is refused as its check does. -/
theorem optimizeBy_of_refused {palette : Value} {e : Fault}
    (h : Palette.validate palette = .error e) (name : Value) (settings : Settings Value)
    (draws? : Option (Draws α)) : optimizeBy read palette name settings draws? = .error e := by
  unfold optimizeBy
  rw [h, error_bind]

/-- With nothing to search, what comes out is empty. -/
theorem optimizeBy_nil {name : Value} {d : Deficiency} {settings : Settings Value}
    {draws : Draws α} (hsettings : settings.validate = .ok ())
    (hname : Deficiency.ofValue name = .ok d) (hdraws : Draws.ofSeed settings.seed = .ok draws) :
    ∃ r, optimizeBy read (.list []) name settings none = .ok r ∧ r.palette = [] := by
  have hctx : ∃ ctx, Context.ofGamma [] d (settings.map read) = .ok ctx ∧ ctx.original = [] :=
    ⟨_, rfl, rfl⟩
  obtain ⟨ctx, hctx, horiginal⟩ := hctx
  have hresult : ∃ r rest, ctx.optimize draws = .ok (r, rest) ∧ r.palette = [] := by
    unfold Context.optimize
    rw [horiginal]
    exact ⟨_, _, rfl, rfl⟩
  obtain ⟨r, rest, hresult, hempty⟩ := hresult
  exact ⟨r, optimizeBy_eq_ok.2
    ⟨[], d, ctx, draws, rest, rfl, hsettings, hname, hctx, hdraws, hresult⟩, hempty⟩

end Checks

/-! ### A seeded run -/

/-- Settings of whole numbers with a seed. -/
def Settings.seeded : Settings Value :=
  .ofTable [("step", .int 1), ("collapse_penalty", .int 1), ("seed", .int 7)]

theorem Settings.validate_seeded : seeded.validate = .ok () := rfl

theorem Settings.isExact_seeded : seeded.IsExact :=
  { Settings.isExact_standard with step := trivial, collapsePenalty := trivial }

/-- A seeded run in exact arithmetic gives a result for every palette that is accepted. -/
theorem exists_optimizeBy_seeded {palette : Value} {colors : Palette Value}
    (h : Palette.validate palette = .ok colors) :
    ∃ r, optimizeBy Value.exact palette (.text "red") Settings.seeded none = .ok r :=
  exists_optimizeBy_exact h Deficiency.ofValue_red Settings.validate_seeded
    Settings.isExact_seeded trivial Settings.threshold_standard

theorem exists_optimizeValue_seeded : ∃ r,
    optimizeValue (.list []) (.text "red") Settings.seeded none = .ok r ∧ r.palette = [] := by
  have hdraws : ∃ draws : Draws Value, Draws.ofSeed Settings.seeded.seed = .ok draws := ⟨_, rfl⟩
  obtain ⟨draws, hdraws⟩ := hdraws
  exact optimizeBy_nil Settings.validate_seeded Deficiency.ofValue_red hdraws

namespace Batch

/-! ### Taking outcomes in -/

section Collect

variable {outcome : Except Fault (List (Triple Int))}
  {outcomes : List (Except Fault (List (Triple Int)))} {order done : List Nat} {place : Nat}
  {p q : Progress} {e : Fault}

theorem settle_eq_ok {palette : Option (List (Triple Int))} :
    settle outcome = .ok palette ↔ Settles outcome ∧ palette = outcome.toOption := by
  unfold settle
  cases outcome with
  | ok a =>
    rw [Except.ok.injEq, and_iff_right (settles_ok a)]
    exact eq_comm
  | error e =>
    rw [settles_error]
    by_cases h : (e.isRefusal || e.isArithmetic) = true
    · simp only [h, if_true, Except.ok.injEq, true_and]
      exact eq_comm
    · simp [h]

theorem settle_eq_error : settle outcome = .error e ↔ outcome = .error e ∧ ¬ Settles outcome := by
  unfold settle
  cases outcome with
  | ok a => simp
  | error f =>
    rw [settles_error]
    by_cases h : (f.isRefusal || f.isArithmetic) = true
    · simp [h]
    · simp [h]

/-- Takes in the outcome at a place. -/
def takeIn (outcomes : List (Except Fault (List (Triple Int)))) (p : Progress) (place : Nat) :
    Except Fault Progress :=
  match outcomes[place]? with
  | none => .ok p
  | some outcome => (settle outcome).map (p.complete place)

theorem collect_eq : collect outcomes order =
    order.foldlM (takeIn outcomes) (Progress.start outcomes.length) :=
  rfl

theorem takeIn_eq_ok (h : outcomes[place]? = some outcome) : takeIn outcomes p place = .ok q ↔
    Settles outcome ∧ q = p.complete place outcome.toOption := by
  unfold takeIn
  simp only [h]
  rcases hs : settle outcome with e | palette
  · have hnot := (settle_eq_error.1 hs).2
    exact iff_of_false nofun fun hq => hnot hq.1
  · obtain ⟨hsettles, rfl⟩ := settle_eq_ok.1 hs
    simp [Except.map, hsettles, eq_comm]

theorem takeIn_eq_error (h : outcomes[place]? = some outcome) : takeIn outcomes p place = .error e ↔
    outcome = .error e ∧ ¬ Settles outcome := by
  unfold takeIn
  simp only [h, ← settle_eq_error]
  cases settle outcome <;> simp [Except.map]

/-- What progress shows when the outcomes at some places have been taken in. -/
structure Progress.Shows (outcomes : List (Except Fault (List (Triple Int)))) (done : List Nat)
    (p : Progress) : Prop where
  length : p.palettes.length = outcomes.length
  palettes : ∀ k outcome, outcomes[k]? = some outcome →
    p.palettes[k]? = some (if k ∈ done then outcome.toOption else none)
  told : p.told = (List.range done.length).map fun k => (k + 1, outcomes.length)

theorem Progress.shows_start : (Progress.start outcomes.length).Shows outcomes [] where
  length := List.length_replicate
  palettes k outcome h := by
    have hk := (List.getElem?_eq_some_iff.1 h).1
    simp [Progress.start, hk]
  told := rfl

/-- One more outcome is stored at its place, and told. -/
theorem Progress.Shows.complete (hp : p.Shows outcomes done) (h : outcomes[place]? = some outcome) :
    (p.complete place outcome.toOption).Shows outcomes (done ++ [place]) where
  length := by
    rw [Progress.complete, List.length_set, hp.length]
  palettes k other hk := by
    rw [Progress.complete, List.getElem?_set]
    by_cases hplace : place = k
    · subst hplace
      have hlt : place < p.palettes.length := hp.length ▸ (List.getElem?_eq_some_iff.1 h).1
      simp [hlt, Option.some.inj (h.symm.trans hk)]
    · have hne : k ≠ place := fun heq => hplace heq.symm
      simp [hplace, hne, hp.palettes k other hk]
  told := by
    simp only [Progress.complete, hp.told, hp.length, List.length_map, List.length_range,
      List.length_append, List.length_singleton, List.range_succ, List.map_append, List.map_cons,
      List.map_nil]

theorem exists_shows_of_foldlM (hp : p.Shows outcomes done)
    (horder : ∀ place ∈ order, ∃ outcome, outcomes[place]? = some outcome ∧ Settles outcome) :
    ∃ q, order.foldlM (takeIn outcomes) p = .ok q ∧ q.Shows outcomes (done ++ order) := by
  induction order generalizing p done with
  | nil =>
    rw [List.append_nil]
    exact ⟨p, rfl, hp⟩
  | cons place rest ih =>
    obtain ⟨outcome, houtcome, hsettles⟩ := horder place List.mem_cons_self
    obtain ⟨q, hq, hshows⟩ := ih (hp.complete houtcome) fun k hk =>
      horder k (List.mem_cons_of_mem _ hk)
    rw [List.append_assoc, List.singleton_append] at hshows
    have hstep := (takeIn_eq_ok (p := p) houtcome).2 ⟨hsettles, rfl⟩
    rw [List.foldlM_cons, hstep]
    exact ⟨q, hq, hshows⟩

/-- Everything that has been taken in could be. -/
theorem settles_of_foldlM (h : order.foldlM (takeIn outcomes) p = .ok q) :
    ∀ place ∈ order, ∀ outcome, outcomes[place]? = some outcome → Settles outcome := by
  induction order generalizing p with
  | nil => nofun
  | cons place rest ih =>
    rw [List.foldlM_cons] at h
    obtain ⟨r, hstep, hrest⟩ := bind_eq_ok.1 h
    intro k hk outcome houtcome
    rcases List.mem_cons.1 hk with rfl | hk
    · exact ((takeIn_eq_ok houtcome).1 hstep).1
    · exact ih hrest k hk outcome houtcome

/-- Taking in stops at the first outcome that a batch cannot take in. -/
theorem exists_unsettled_of_foldlM (horder : ∀ place ∈ order, place < outcomes.length)
    (h : order.foldlM (takeIn outcomes) p = .error e) :
    ∃ place ∈ order, outcomes[place]? = some (.error e) ∧
      ¬ Settles (.error e : Except Fault (List (Triple Int))) := by
  induction order generalizing p with
  | nil => exact nomatch h
  | cons place rest ih =>
    have hplace := List.getElem?_eq_getElem (horder place List.mem_cons_self)
    rw [List.foldlM_cons] at h
    rcases hstep : takeIn outcomes p place with f | q
    · rw [hstep] at h
      obtain rfl : f = e := Except.error.inj h
      obtain ⟨heq, hnot⟩ := (takeIn_eq_error hplace).1 hstep
      exact ⟨place, List.mem_cons_self, heq ▸ hplace, heq ▸ hnot⟩
    · rw [hstep] at h
      obtain ⟨k, hk, hfault⟩ := ih (fun k hk => horder k (List.mem_cons_of_mem _ hk)) h
      exact ⟨k, List.mem_cons_of_mem _ hk, hfault⟩

theorem mem_order_iff (horder : order.Perm (List.range outcomes.length)) :
    place ∈ order ↔ place < outcomes.length := by
  rw [horder.mem_iff, List.mem_range]

/-- Taken in in any order, outcomes that can be taken in end up at their places. -/
theorem collect_eq_ok (horder : order.Perm (List.range outcomes.length))
    (hsettles : ∀ outcome ∈ outcomes, Settles outcome) :
    collect outcomes order = .ok
      { palettes := outcomes.map Except.toOption
        told := (List.range outcomes.length).map fun k => (k + 1, outcomes.length) } := by
  have hall : ∀ place ∈ order, ∃ outcome, outcomes[place]? = some outcome ∧ Settles outcome := by
    intro place hplace
    have hlt := (mem_order_iff horder).1 hplace
    exact ⟨_, List.getElem?_eq_getElem hlt, hsettles _ (List.getElem_mem hlt)⟩
  obtain ⟨q, hq, hshows⟩ := exists_shows_of_foldlM Progress.shows_start hall
  have hpalettes : q.palettes = outcomes.map Except.toOption := by
    refine List.ext_getElem? fun k => ?_
    rw [List.getElem?_map]
    rcases hk : outcomes[k]? with _ | outcome
    · rw [List.getElem?_eq_none_iff] at hk
      rw [List.getElem?_eq_none_iff.2 (hshows.length ▸ hk)]
      rfl
    · have hmem : k ∈ order := (mem_order_iff horder).2 (List.getElem?_eq_some_iff.1 hk).1
      rw [hshows.palettes k outcome hk, List.nil_append, if_pos hmem]
      rfl
  have htold : q.told = (List.range outcomes.length).map fun k => (k + 1, outcomes.length) := by
    rw [hshows.told, List.nil_append, horder.length_eq, List.length_range]
  rw [collect_eq, hq]
  obtain ⟨palettes, told⟩ := q
  exact congrArg Except.ok (congrArg₂ Progress.mk hpalettes htold)

end Collect

/-! ### Batches -/

section Batch

variable {α : Type} [ColorArith α] {read : Value → α} {palettes : List Value} {name : Value}
  {d : Deficiency} {settings : Settings Value} {workers : Int} {order : List Nat}

/-- What optimizing a palette on its own comes to. -/
def alone (read : Value → α) (name : Value) (settings : Settings Value) (palette : Value) :
    Except Fault (List (Triple Int)) :=
  (Dichromat.optimizeBy read palette name settings none).map Result.palette

theorem requireWorkers_int (h : 1 ≤ workers) : requireWorkers (.int workers) = .ok () := by
  have hnot : ¬ workers ≤ 0 := by omega
  simp only [requireWorkers, Value.le_int, ok_bind, decide_eq_true_eq, if_neg hnot]
  rfl

/-- A batch takes in what its palettes come to on their own. -/
theorem optimize_eq_collect (hne : palettes ≠ []) (hname : Deficiency.ofValue name = .ok d)
    (hworkers : 1 ≤ workers) : optimizeBy read palettes name settings (.int workers) order =
      collect (palettes.map (alone read name settings)) order := by
  have hempty : palettes.isEmpty = false := by
    rw [List.isEmpty_eq_false_iff]
    exact hne
  unfold optimizeBy
  simp only [hempty, hname, requireWorkers_int hworkers, ok_bind, Bool.false_eq_true, if_false,
    optimizeBy_name hname]
  rfl

theorem settles_alone_iff {palette : Value} :
    Settles (alone read name settings palette) ↔
      Settles (Dichromat.optimizeBy read palette name settings none) :=
  settles_map _

theorem alone_eq_error_iff {palette : Value} {e : Fault} :
    alone read name settings palette = .error e ↔
      Dichromat.optimizeBy read palette name settings none = .error e := by
  unfold alone
  cases Dichromat.optimizeBy read palette name settings none <;> simp [Except.map]

theorem toOption_alone (read : Value → α) (name : Value) (settings : Settings Value)
    (palette : Value) :
    (alone read name settings palette).toOption =
      (Dichromat.optimizeBy read palette name settings none).toOption.map Result.palette := by
  unfold alone
  cases Dichromat.optimizeBy read palette name settings none <;> rfl

/-- A batch of runs that it can take in has one outcome, whatever their order. -/
theorem optimize_of_settles (hname : Deficiency.ofValue name = .ok d) (hworkers : 1 ≤ workers)
    (horder : order.Perm (List.range palettes.length))
    (hruns : ∀ palette ∈ palettes, Settles (Dichromat.optimizeBy read palette name settings none)) :
    optimizeBy read palettes name settings (.int workers) order = .ok
      { palettes := palettes.map fun palette =>
          (Dichromat.optimizeBy read palette name settings none).toOption.map Result.palette
        told := (List.range palettes.length).map fun k => (k + 1, palettes.length) } := by
  by_cases hne : palettes = []
  · subst hne
    rfl
  have hsettles : ∀ outcome ∈ palettes.map (alone read name settings), Settles outcome := by
    intro outcome houtcome
    obtain ⟨palette, hpalette, rfl⟩ := List.mem_map.1 houtcome
    exact settles_alone_iff.2 (hruns palette hpalette)
  rw [← List.length_map (alone read name settings)] at horder
  rw [optimize_eq_collect hne hname hworkers, collect_eq_ok horder hsettles, List.map_map,
    List.length_map]
  simp only [Function.comp_def, toOption_alone]

/-- Whatever the schedule, a batch of runs that it can take in gives every palette what it comes to
on its own, and nothing where this is a fault; every completion is told once, one after the other.
-/
theorem optimize_scheduled {pool : Pool} (hname : Deficiency.ofValue name = .ok d)
    (hworkers : 1 ≤ workers) (hpool : pool.Ends workers.toNat palettes.length)
    (hruns : ∀ palette ∈ palettes, Settles (Dichromat.optimizeBy read palette name settings none)) :
    ∃ p, optimizeBy read palettes name settings (.int workers) pool.taken = .ok p ∧
      p.palettes = palettes.map (fun palette =>
        (Dichromat.optimizeBy read palette name settings none).toOption.map Result.palette) ∧
      p.told = (List.range palettes.length).map fun k => (k + 1, palettes.length) := by
  have hpositive : 0 < workers.toNat := by omega
  have horder := Pool.perm_of_ends hpositive hpool
  exact ⟨_, optimize_of_settles hname hworkers horder hruns, rfl, rfl⟩

/-- Two workers, and the last of three runs completes first; the second palette is refused. -/
theorem optimize_scheduled_mixed : ∃ (pool : Pool) (p : Progress) (first last : List (Triple Int)),
    pool.Ends 2 3 ∧ pool.taken = [2, 0, 1] ∧
    optimizeBy Value.exact [.list [.list [.int 10, .int 200, .int 30]],
      .list [.list [.int 999, .int 0, .int 0]],
      .list [.list [.int 200, .int 10, .int 30], .list [.int 10, .int 200, .int 30]]] (.text "red")
      Settings.seeded (.int 2) pool.taken = .ok p ∧
    p.palettes = [some first, none, some last] ∧ first.length = 1 ∧ last.length = 2 ∧
    p.told = [(1, 3), (2, 3), (3, 3)] := by
  let green : Value := .list [.list [.int 10, .int 200, .int 30]]
  let far : Value := .list [.list [.int 999, .int 0, .int 0]]
  let pair : Value :=
    .list [.list [.int 200, .int 10, .int 30], .list [.int 10, .int 200, .int 30]]
  have hgreen : ∃ colors, Palette.validate green = .ok colors := ⟨_, rfl⟩
  have hpair : ∃ colors, Palette.validate pair = .ok colors := ⟨_, rfl⟩
  obtain ⟨_, hgreen⟩ := hgreen
  obtain ⟨_, hpair⟩ := hpair
  obtain ⟨r, hr⟩ := exists_optimizeBy_seeded hgreen
  obtain ⟨t, ht⟩ := exists_optimizeBy_seeded hpair
  have hchannel : ∃ e, Palette.validate far = .error e ∧ e.isRefusal = true := ⟨_, rfl, rfl⟩
  obtain ⟨e, hchannel, hrefusal⟩ := hchannel
  have he : Dichromat.optimizeBy Value.exact far (.text "red") Settings.seeded none = .error e :=
    optimizeBy_of_refused hchannel _ _ _
  have hruns : ∀ palette ∈ [green, far, pair],
      Settles (Dichromat.optimizeBy Value.exact palette (.text "red") Settings.seeded none) := by
    simp only [List.mem_cons, List.not_mem_nil, or_false]
    rintro palette (rfl | rfl | rfl)
    · exact hr ▸ settles_ok r
    · rw [he, settles_error, hrefusal, Bool.true_or]
    · exact ht ▸ settles_ok t
  have horder : [2, 0, 1].Perm (List.range 3) := by decide
  obtain ⟨pool, hpool, htaken⟩ := (Pool.exists_ends_iff_perm (by decide : 0 < 2)).2 horder
  have hworkers : (1 : Int) ≤ 2 := by decide
  obtain ⟨p, hp, hpalettes, htold⟩ := optimize_scheduled Deficiency.ofValue_red hworkers hpool hruns
  refine ⟨pool, p, r.palette, t.palette, hpool, htaken, hp, ?_, length_of_optimizeBy hr,
    length_of_optimizeBy ht, htold⟩
  rw [hpalettes]
  simp only [List.map_cons, List.map_nil, hr, he, ht, Except.toOption, Option.map_some,
    Option.map_none]

end Batch

end Batch

end Dichromat
