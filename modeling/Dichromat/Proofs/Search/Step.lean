import Dichromat.Search.Tabu
import Dichromat.Proofs.Search.Buffers

/-!
# What a step of a search does

The candidates of a step are the moves that the memories permit, in the order of the scan
(`State.permitted`). Each carries the error and the gain that recomputation gives for its move
(`Candidate.Tried`), whatever the buffers held. Applying a choice changes one colour and leaves the
errors of the changed palette (`State.applyChoice_eq_ok`).
-/

namespace Dichromat

variable {α : Type} [ColorArith α]

/-! ### The moves that a state permits -/

/-- The colour that a candidate moves, its channel and the direction. -/
def Candidate.move (c : Candidate α) : Nat × Channel × Direction :=
  (c.place, c.channel, c.direction)

namespace State

/-- Whether the memory of a colour does not hold the direction of a move on its channel. -/
def permits (s : State α) (place : Nat) (x : Channel × Direction) : Bool :=
  s.memory[place]?.bind (·[x.1.index]?) ≠ some x.2.sign

/-- The moves that a state permits, colour by colour, channel by channel, down before up. -/
def permitted (s : State α) : List (Nat × Channel × Direction) :=
  (List.range s.palette.length).flatMap fun place =>
    (moves.filter (s.permits place)).map fun x => (place, x)

omit [ColorArith α]

variable {s : State α} {place : Nat} {m : Memory} {k : Channel} {d : Direction}

theorem permits_of_allows {allowed : Bool} (hm : s.memory[place]? = some m)
    (h : allows m k d = .ok allowed) : s.permits place (k, d) = allowed := by
  unfold allows at h
  unfold permits
  rw [hm, Option.bind_some]
  rcases hx : m[k.index]? with _ | sign
  · rw [hx] at h
    exact nomatch h
  · rw [hx] at h
    rw [← Except.ok.inj h]
    simp only [ne_eq, Option.some.injEq]

theorem mem_moves (k : Channel) (d : Direction) : (k, d) ∈ moves := by
  cases k <;> cases d <;> decide

theorem mem_permitted (hplace : place < s.palette.length) (h : s.permits place (k, d) = true) :
    (place, k, d) ∈ s.permitted :=
  List.mem_flatMap.2 ⟨place, List.mem_range.2 hplace, List.mem_map.2
    ⟨(k, d), List.mem_filter.2 ⟨mem_moves k d, h⟩, rfl⟩⟩

end State

/-! ### Candidates -/

/-- A move of a state that its memory allows, with the error and the gain of its colour. -/
structure Candidate.Tried (ctx : Context α) (s : State α) (c : Candidate α) : Prop where
  allowed : ∃ memory, s.memory[c.place]? = some memory ∧
    State.allows memory c.channel c.direction = .ok true
  color : ∃ color x, s.palette[c.place]? = some color ∧
    moved ctx.settings.step (color.get c.channel) c.direction = .ok x ∧
    c.color = color.set c.channel x
  error : ∃ eye, ctx.deficiency.Sees c.color eye ∧
    colorError ctx s.projected c.place eye = .ok c.error
  gain : ∃ before, s.errors[c.place]? = some before ∧ Arith.sub c.error before = .ok c.gain

/-- The error of a candidate is that of its colour, however it is projected. -/
theorem Candidate.Tried.colorError_eq {ctx : Context α} {s : State α} {c : Candidate α}
    (hc : c.Tried ctx s) {eye : Eye α} (he : ctx.deficiency.Sees c.color eye)
    (hs : ∀ e ∈ s.projected, e.space = .perceived) :
    colorError ctx s.projected c.place eye = .ok c.error := by
  obtain ⟨eye', he', h⟩ := hc.error
  rw [← h]
  exact colorError_congr (he.agrees he') (Eye.forall₂_agrees_self hs)

/-- What a step weighs a move by is the palette with its projections, errors and memories. -/
theorem Candidate.Tried.of_eq {ctx : Context α} {s t : State α} {c : Candidate α}
    (hc : c.Tried ctx s) (h : (t.palette, t.projected, t.errors, t.memory) =
      (s.palette, s.projected, s.errors, s.memory)) : c.Tried ctx t := by
  simp only [Prod.mk.injEq] at h
  obtain ⟨hp, hq, he, hm⟩ := h
  exact ⟨hm ▸ hc.allowed, hp ▸ hc.color, hq ▸ hc.error, he ▸ hc.gain⟩

theorem Candidate.Tried.palette_ne_nil {ctx : Context α} {s : State α} {c : Candidate α}
    (hc : c.Tried ctx s) : s.palette ≠ [] := by
  obtain ⟨_, _, hcolor, -⟩ := hc.color
  exact List.ne_nil_of_mem (List.mem_of_getElem? hcolor)

/-- A move determines its candidate. -/
theorem Candidate.Tried.ext {ctx : Context α} {s : State α} {a b : Candidate α}
    (ha : a.Tried ctx s) (hb : b.Tried ctx s) (hs : ∀ e ∈ s.projected, e.space = .perceived)
    (hp : a.place = b.place) (hk : a.channel = b.channel) (hd : a.direction = b.direction) :
    a = b := by
  rcases a with ⟨place, k, d, color, error, gain⟩
  rcases b with ⟨_, _, _, color', error', gain'⟩
  subst hp
  subst hk
  subst hd
  obtain ⟨old, x, hold, hx, hcolor⟩ := ha.color
  obtain ⟨old', x', hold', hx', hcolor'⟩ := hb.color
  obtain rfl := Option.some.inj (hold.symm.trans hold')
  obtain rfl := Except.ok.inj (hx.symm.trans hx')
  obtain rfl : color = color' := hcolor.trans hcolor'.symm
  obtain ⟨eye, heye, he⟩ := hb.error
  obtain rfl : error = error' := Except.ok.inj ((ha.colorError_eq heye hs).symm.trans he)
  obtain ⟨before, hbefore, hg⟩ := ha.gain
  obtain ⟨before', hbefore', hg'⟩ := hb.gain
  obtain rfl := Option.some.inj (hbefore.symm.trans hbefore')
  obtain rfl : gain = gain' := Except.ok.inj (hg.symm.trans hg')
  rfl

namespace State

variable {ctx : Context α} {s : State α}

section Candidates

variable {p q : Projector α} {place : Nat} {color : Triple α} {k : Channel} {d : Direction}

theorem tried_of_candidate (hp : p.Serves ctx.deficiency) (hcolor : s.palette[place]? = some color)
    {m : Memory} (hm : s.memory[place]? = some m) (hk : allows m k d = .ok true) {c : Candidate α}
    (h : (candidate ctx s place color k d).run p = .ok (c, q)) :
    q.Serves ctx.deficiency ∧ c.Tried ctx s ∧
      c.place = place ∧ c.channel = k ∧ c.direction = d := by
  simp only [candidate, run_bind_eq_ok, run_liftM_eq_ok, run_get_eq_ok, run_set_eq_ok] at h
  obtain ⟨x, _, ⟨hx, rfl⟩, _, _, ⟨rfl, rfl⟩, r, _, ⟨hr, rfl⟩, _, _, rfl, error, _, ⟨he, rfl⟩, h⟩ :=
    h
  obtain ⟨hr', hsees⟩ := Projector.serves_project hp hr
  rcases hb : s.errors[place]? with _ | before
  · rw [hb] at h
    exact absurd h (run_throw_ne_ok _ _ _)
  · rw [hb] at h
    simp only [run_bind_eq_ok, run_liftM_eq_ok, run_pure_eq_ok] at h
    obtain ⟨gain, _, ⟨hg, rfl⟩, rfl, rfl⟩ := h
    exact ⟨hr', ⟨⟨m, hm, hk⟩, ⟨color, x, hcolor, hx, rfl⟩, ⟨r.eye, hsees, he⟩, ⟨before, hb, hg⟩⟩,
      rfl, rfl, rfl⟩

/-- A permitted move gives a candidate, and another one none. -/
theorem tried_of_candidate? (hp : p.Serves ctx.deficiency)
    (hcolor : s.palette[place]? = some color) {m : Memory} (hm : s.memory[place]? = some m)
    {o : Option (Candidate α)} (h : (candidate? ctx s place color m k d).run p = .ok (o, q)) :
    q.Serves ctx.deficiency ∧ (∀ c, o = some c → c.Tried ctx s) ∧
      o.map Candidate.move = if s.permits place (k, d) then some (place, k, d) else none := by
  simp only [candidate?, run_bind_eq_ok, run_liftM_eq_ok] at h
  obtain ⟨allowed, _, ⟨hk, rfl⟩, h⟩ := h
  rw [permits_of_allows hm hk]
  cases allowed with
  | true =>
    simp only [if_true, run_bind_eq_ok, run_pure_eq_ok] at h
    obtain ⟨c, _, hc, rfl, rfl⟩ := h
    obtain ⟨hq, ht, rfl, rfl, rfl⟩ := tried_of_candidate hp hcolor hm hk hc
    exact ⟨hq, fun _ h => Option.some.inj h ▸ ht, rfl⟩
  | false =>
    simp only [Bool.false_eq_true, if_false, run_pure_eq_ok] at h
    obtain ⟨rfl, rfl⟩ := h
    exact ⟨hp, nofun, rfl⟩

/-- The results of a scan that has one for each element of a kind. -/
theorem map_filterMap_of_forall₂ {β γ δ : Type} {xs : List β} {os : List (Option γ)} {f : γ → δ}
    {g : β → δ} {kind : β → Bool}
    (h : List.Forall₂ (fun x o => o.map f = if kind x then some (g x) else none) xs os) :
    (os.filterMap id).map f = (xs.filter kind).map g := by
  induction h with
  | nil => rfl
  | @cons x o xs os hx _ ih =>
    cases hk : kind x with
    | true =>
      rw [hk, if_pos rfl] at hx
      obtain ⟨c, rfl, hc⟩ := Option.map_eq_some_iff.1 hx
      rw [List.filter_cons_of_pos hk, List.map_cons, ← hc, ← ih]
      rfl
    | false =>
      rw [hk, if_neg Bool.false_ne_true, Option.map_eq_none_iff] at hx
      rw [List.filter_cons_of_neg (ne_true_of_eq_false hk), ← ih, hx]
      rfl

theorem tried_of_candidatesOf (hp : p.Serves ctx.deficiency)
    (hcolor : s.palette[place]? = some color) {cs : List (Candidate α)}
    (h : (candidatesOf ctx s color place).run p = .ok (cs, q)) :
    q.Serves ctx.deficiency ∧ (∀ c ∈ cs, c.Tried ctx s) ∧
      cs.map Candidate.move = (moves.filter (s.permits place)).map fun x => (place, x) := by
  unfold candidatesOf at h
  rcases hm : s.memory[place]? with _ | m
  · rw [hm] at h
    exact absurd h (run_throw_ne_ok _ _ _)
  · rw [hm] at h
    simp only [run_bind_eq_ok, run_pure_eq_ok] at h
    obtain ⟨tried, _, ht, rfl, rfl⟩ := h
    have hmove (x) (_ : x ∈ moves) (r o t) (hr : r.Serves ctx.deficiency)
        (hx : (candidate? ctx s place color m x.1 x.2).run r = .ok (o, t)) :=
      tried_of_candidate? hr hcolor hm hx
    obtain ⟨hq, hall⟩ := forall₂_of_run_mapM hmove hp ht
    refine ⟨hq, fun c hc => ?_, map_filterMap_of_forall₂ (hall.imp fun _ _ h => h.2)⟩
    obtain ⟨o, ho, rfl⟩ := List.mem_filterMap.1 hc
    obtain ⟨_, -, htried, -⟩ := exists_left_of_mem hall ho
    exact htried c rfl

/-- The candidates of a state are its permitted moves, in the order of the scan. -/
theorem tried_of_candidates (hp : p.Serves ctx.deficiency) {cs : List (Candidate α)}
    (h : (candidates ctx s).run p = .ok (cs, q)) : q.Serves ctx.deficiency ∧
      (∀ c ∈ cs, c.Tried ctx s) ∧ cs.map Candidate.move = s.permitted := by
  unfold candidates at h
  simp only [run_bind_eq_ok, run_pure_eq_ok] at h
  obtain ⟨groups, _, hg, rfl, rfl⟩ := h
  have hmem {x : Triple α × Nat} (hx : x ∈ s.palette.zipIdx) : s.palette[x.2]? = some x.1 :=
    List.mem_zipIdx_iff_getElem?.1 hx
  obtain ⟨hq, hall⟩ := forall₂_of_run_mapM (I := (Projector.Serves · ctx.deficiency))
    (fun x hx _ _ _ hr h => tried_of_candidatesOf hr (hmem hx) h) hp hg
  refine ⟨hq, fun c hc => ?_, ?_⟩
  · obtain ⟨group, hgroup, hc⟩ := List.mem_flatten.1 hc
    obtain ⟨_, -, htried, -⟩ := exists_left_of_mem hall hgroup
    exact htried c hc
  · have hmoves : groups.map (List.map Candidate.move) = s.palette.zipIdx.map fun x =>
        (moves.filter (s.permits x.2)).map fun y => (x.2, y) := by
      rw [← List.forall₂_eq_eq_eq, List.forall₂_map_left_iff, List.forall₂_map_right_iff]
      exact (hall.imp fun _ _ h => h.2).flip
    rw [List.map_flatten, hmoves, permitted, List.flatMap, List.range_eq_range',
      ← List.zipIdx_map_snd, List.map_map]
    rfl

theorem move_mem_permitted {c : Candidate α} (hc : c.Tried ctx s) : c.move ∈ s.permitted := by
  obtain ⟨m, hm, hk⟩ := hc.allowed
  obtain ⟨color, _, hcolor, -⟩ := hc.color
  exact mem_permitted (List.getElem?_eq_some_iff.1 hcolor).1 (permits_of_allows hm hk)

/-- The candidates of a state are its allowed moves. -/
theorem mem_candidates_iff (hp : p.Serves ctx.deficiency)
    (hs : ∀ e ∈ s.projected, e.space = .perceived) {cs : List (Candidate α)}
    (h : (candidates ctx s).run p = .ok (cs, q)) :
    q.Serves ctx.deficiency ∧ ∀ c, c ∈ cs ↔ c.Tried ctx s := by
  obtain ⟨hq, htried, hmoves⟩ := tried_of_candidates hp h
  refine ⟨hq, fun c => ⟨htried c, fun hc => ?_⟩⟩
  obtain ⟨c', hc', hmove⟩ := List.mem_map.1 (hmoves ▸ move_mem_permitted hc)
  simp only [Candidate.move, Prod.mk.injEq] at hmove
  exact (htried c' hc').ext hc hs hmove.1 hmove.2.1 hmove.2.2 ▸ hc'

end Candidates

end State

namespace Candidate

/-! ### The choice -/

section FirstLeast

variable {cs : List (Candidate α)}

/-- One comparison of the scan for the least gain. -/
def better (best : Option (Candidate α)) (c : Candidate α) :
    Except Fault (Option (Candidate α)) := do
  if ← isBelow c.gain (best.map Candidate.gain) then return some c else return best

theorem better_eq_ok {best next : Option (Candidate α)} {c : Candidate α} :
    better best c = .ok next ↔
      (isBelow c.gain (best.map gain) = .ok true ∧ next = some c) ∨
        (isBelow c.gain (best.map gain) = .ok false ∧ next = best) := by
  unfold better
  simp only [bind_eq_ok]
  constructor
  · rintro ⟨_ | _, hb, h⟩
    · exact Or.inr ⟨hb, (pure_eq_ok.1 h).symm⟩
    · exact Or.inl ⟨hb, (pure_eq_ok.1 h).symm⟩
  · rintro (⟨hb, rfl⟩ | ⟨hb, rfl⟩)
    · exact ⟨true, hb, rfl⟩
    · exact ⟨false, hb, rfl⟩

theorem foldlM_better_mem {best next : Option (Candidate α)}
    (h : cs.foldlM better best = .ok next) : next = best ∨ ∃ c ∈ cs, next = some c := by
  induction cs generalizing best with
  | nil => exact Or.inl (pure_eq_ok.1 h).symm
  | cons c cs ih =>
    rw [List.foldlM_cons, bind_eq_ok] at h
    obtain ⟨mid, hc, h⟩ := h
    rcases ih h with rfl | ⟨c', hc', rfl⟩
    · rcases better_eq_ok.1 hc with ⟨-, rfl⟩ | ⟨-, rfl⟩
      · exact Or.inr ⟨c, List.mem_cons_self, rfl⟩
      · exact Or.inl rfl
    · exact Or.inr ⟨c', List.mem_cons_of_mem _ hc', rfl⟩

theorem foldlM_better_ne_none {best : Option (Candidate α)} (h : cs.foldlM better best = .ok none) :
    best = none ∧ ∀ c ∈ cs, Arith.bounded c.gain = .ok false := by
  induction cs generalizing best with
  | nil => exact ⟨pure_eq_ok.1 h, nofun⟩
  | cons c cs ih =>
    rw [List.foldlM_cons, bind_eq_ok] at h
    obtain ⟨mid, hc, h⟩ := h
    obtain ⟨rfl, hall⟩ := ih h
    rcases better_eq_ok.1 hc with ⟨-, hn⟩ | ⟨hb, rfl⟩
    · exact nomatch hn
    · exact ⟨rfl, List.forall_mem_cons.2 ⟨hb, hall⟩⟩

theorem firstLeast_mem {c : Candidate α} (h : firstLeast cs = .ok (some c)) : c ∈ cs := by
  rcases foldlM_better_mem h with h | ⟨c', hc', h⟩
  · exact nomatch h
  · exact Option.some.inj h ▸ hc'

/-- Where a gain lies below infinity, there is a first candidate of least gain. -/
theorem exists_firstLeast {best : Option (Candidate α)} (h : firstLeast cs = .ok best)
    (hc : ∃ c ∈ cs, Arith.bounded c.gain = .ok true) : ∃ c ∈ cs, best = some c := by
  obtain ⟨c, hc, hb⟩ := hc
  rcases best with _ | c'
  · exact nomatch hb.symm.trans ((foldlM_better_ne_none h).2 c hc)
  · exact ⟨c', firstLeast_mem h, rfl⟩

end FirstLeast

end Candidate

namespace State

/-! ### Applying a choice -/

variable {ctx : Context α} {s t : State α}

theorem requirePlace_eq_ok {β : Type} {xs : List β} {k : Nat} :
    requirePlace xs k = .ok () ↔ k < xs.length := by
  unfold requirePlace
  split_ifs with h <;> simp [h]

theorem runOn_refresh_eq_ok {projected : List (Eye α)} {eye : Eye α} {l : Nat}
    (hl : l < s.errors.length) :
    (refresh ctx projected l eye).runOn s = (.ok (), t) ↔
      ∃ e, colorError ctx projected l eye = .ok e ∧ t = { s with errors := s.errors.set l e } := by
  unfold refresh
  simp only [Update.runOn_bind_eq_ok, Update.runOn_liftM, Update.runOn_get, Update.runOn_modify,
    Prod.mk.injEq, Except.ok.injEq]
  constructor
  · rintro ⟨e, _, ⟨he, rfl⟩, _, _, ⟨rfl, rfl⟩, _, _, ⟨-, rfl⟩, -, rfl⟩
    exact ⟨e, he, rfl⟩
  · rintro ⟨e, he, rfl⟩
    exact ⟨e, s, ⟨he, rfl⟩, s, s, ⟨rfl, rfl⟩, (), s, ⟨requirePlace_eq_ok.2 hl, rfl⟩, trivial, rfl⟩

/-- Whether the error at a place is passed over or recomputed, it is up to date then. -/
theorem runOn_refreshUnless_eq_ok {place : Nat} {projected : List (Eye α)} {eye : Eye α}
    (done : List α) {e₀ : α} {rest : List α}
    (h : done.length = place → colorError ctx projected place eye = .ok e₀) :
    (if done.length = place then pure () else refresh ctx projected done.length eye).runOn
        { s with errors := done ++ e₀ :: rest } = (.ok (), t) ↔
      ∃ e, colorError ctx projected done.length eye = .ok e ∧
        t = { s with errors := done ++ e :: rest } := by
  by_cases hl : done.length = place
  · rw [if_pos hl, hl]
    constructor
    · intro hr
      exact ⟨e₀, h hl, (Prod.mk.inj hr).2.symm⟩
    · rintro ⟨e, he, rfl⟩
      obtain rfl := Except.ok.inj ((h hl).symm.trans he)
      rfl
  · have hlt : done.length < ({ s with errors := done ++ e₀ :: rest } : State α).errors.length := by
      simp
    rw [if_neg hl, runOn_refresh_eq_ok hlt]
    simp only [List.set_append_right _ _ (Nat.le_refl _), Nat.sub_self, List.set_cons_zero]

/-- The loop over the other colours, from place `done.length` on, leaves the errors of all colours
where that of the one passed over is up to date. -/
theorem runOn_forM_refresh_eq_ok {place : Nat} {projected eyes : List (Eye α)} (done : List α)
    {rest : List α} (hlen : rest.length = eyes.length)
    (hplace : ∀ j eye, eyes[j]? = some eye → done.length + j = place →
      ∃ e, rest[j]? = some e ∧ colorError ctx projected place eye = .ok e) :
    ((eyes.zipIdx done.length).forM fun (eye, l) =>
        if l = place then pure () else refresh ctx projected l eye).runOn
        { s with errors := done ++ rest } = (.ok (), t) ↔
      ∃ es, ((eyes.zipIdx done.length).mapM fun (eye, l) => colorError ctx projected l eye) =
        .ok es ∧ t = { s with errors := done ++ es } := by
  induction eyes generalizing done rest with
  | nil =>
    obtain rfl := List.length_eq_zero_iff.1 hlen
    constructor
    · intro h
      exact ⟨[], rfl, (Prod.mk.inj h).2.symm⟩
    · rintro ⟨es, hes, rfl⟩
      obtain rfl := Except.ok.inj hes
      rfl
  | cons eye eyes ih =>
    obtain ⟨e₀, rest, rfl⟩ := List.exists_cons_of_length_eq_add_one hlen
    have hfirst (hl : done.length = place) : colorError ctx projected place eye = .ok e₀ := by
      obtain ⟨e, he, hce⟩ := hplace 0 eye rfl hl
      exact Option.some.inj he ▸ hce
    have htail (e : α) := ih (done ++ [e]) (Nat.succ.inj hlen)
      fun j x hx hj => hplace (j + 1) x hx (by rw [List.length_append] at hj; simp at hj; omega)
    simp only [List.length_append, List.length_singleton, List.append_assoc,
      List.singleton_append] at htail
    simp only [List.zipIdx_cons, Update.runOn_forM_cons_eq_ok, List.mapM_cons, bind_eq_ok,
      pure_eq_ok, runOn_refreshUnless_eq_ok done hfirst]
    constructor
    · rintro ⟨_, ⟨e, he, rfl⟩, h⟩
      obtain ⟨es, hes, rfl⟩ := (htail e).1 h
      exact ⟨_, ⟨e, he, es, hes, rfl⟩, rfl⟩
    · rintro ⟨_, ⟨e, he, es, hes, rfl⟩, rfl⟩
      exact ⟨_, ⟨e, he, rfl⟩, (htail e).2 ⟨es, hes, rfl⟩⟩

/-- Recomputing all errors but one brings them up to date if that one is. -/
theorem runOn_refreshOthers_eq_ok {place : Nat} (hlen : s.errors.length = s.projected.length)
    (hplace : ∀ eye, s.projected[place]? = some eye →
      ∃ e, s.errors[place]? = some e ∧ colorError ctx s.projected place eye = .ok e) :
    (refreshOthers ctx place).runOn s = (.ok (), t) ↔
      ∃ es, colorErrors ctx s.projected = .ok es ∧ t = { s with errors := es } := by
  refine runOn_forM_refresh_eq_ok [] hlen fun j eye hj hp => ?_
  obtain rfl : j = place := (Nat.zero_add j).symm.trans hp
  exact hplace eye hj

theorem runOn_recolor_eq_ok {c : Choice α} (hp : s.projector.Serves ctx.deficiency)
    (hs : ∀ e ∈ s.projected, e.space = .perceived) :
    (recolor c).runOn s = (.ok (), t) ↔ c.place < s.projected.length ∧
      ∃ q, s.projector.project c.color = .ok q ∧
        t = { s with
          palette := s.palette.set c.place c.color, projector := q
          projected := s.projected.set c.place q.eye } := by
  unfold recolor
  rw [Update.runOn_bind_of_ok (Update.runOn_modify _ _),
    Update.runOn_bind_of_ok (Update.runOn_get _)]
  by_cases hk : c.place < s.projected.length
  · have hseen := hs _ (List.getElem_mem hk)
    simp only [List.getElem?_eq_getElem hk, Update.runOn_bind_eq_ok, Update.runOn_get,
      Update.runOn_modify, Update.runOn_liftM, Prod.mk.injEq, Except.ok.injEq]
    constructor
    · rintro ⟨_, _, ⟨rfl, rfl⟩, q, _, ⟨hq, rfl⟩, eye, _, ⟨he, rfl⟩, -, rfl⟩
      rw [Eye.apply_copyEye (Projector.serves_project hp hq).1.perceived hseen] at he
      obtain rfl := Except.ok.inj he
      exact ⟨hk, q, hq, rfl⟩
    · rintro ⟨-, q, hq, rfl⟩
      exact ⟨_, _, ⟨rfl, rfl⟩, q, _, ⟨hq, rfl⟩, q.eye, _,
        ⟨Eye.apply_copyEye (Projector.serves_project hp hq).1.perceived hseen, rfl⟩, trivial, rfl⟩
  · simp [hk]

theorem runOn_renewErrors_eq_ok {c : Choice α} {eye : Eye α}
    (hlen : s.errors.length = s.projected.length) (heye : s.projected[c.place]? = some eye)
    (he : colorError ctx s.projected c.place eye = .ok c.error) :
    (renewErrors ctx c).runOn s = (.ok (), t) ↔
      ∃ es, colorErrors ctx s.projected = .ok es ∧ t = { s with errors := es } := by
  have hk : c.place < s.errors.length := hlen ▸ (List.getElem?_eq_some_iff.1 heye).1
  have hreq : (liftM (requirePlace s.errors c.place) : Update (State α) Unit).runOn s =
      (.ok (), s) := by
    rw [Update.runOn_liftM, requirePlace_eq_ok.2 hk]
  unfold renewErrors
  rw [Update.runOn_bind_of_ok (Update.runOn_get _), Update.runOn_bind_of_ok hreq,
    Update.runOn_bind_of_ok (Update.runOn_modify _ _), runOn_refreshOthers_eq_ok]
  · rw [List.length_set]
    exact hlen
  · intro eye' heye'
    obtain rfl := Option.some.inj (heye.symm.trans heye')
    exact ⟨c.error, List.getElem?_set_self hk, he⟩

omit [ColorArith α] in
theorem runOn_remember_eq_ok {c : Choice α} :
    (remember c).runOn s = (.ok (), t) ↔
      c.place < s.memory.length ∧ t = { s with memory := s.memory.set c.place c.memory } := by
  unfold remember
  simp only [Update.runOn_bind_eq_ok, Update.runOn_get, Update.runOn_modify, Update.runOn_liftM,
    Prod.mk.injEq, Except.ok.injEq]
  constructor
  · rintro ⟨_, _, ⟨rfl, rfl⟩, _, _, ⟨hk, rfl⟩, -, rfl⟩
    exact ⟨requirePlace_eq_ok.1 hk, rfl⟩
  · rintro ⟨hk, rfl⟩
    exact ⟨_, _, ⟨rfl, rfl⟩, (), _, ⟨requirePlace_eq_ok.2 hk, rfl⟩, trivial, rfl⟩

/-- What applying a choice does, if its error is that of its colour. -/
theorem applyChoice_eq_ok {c : Choice α} {eye : Eye α} (hp : s.projector.Serves ctx.deficiency)
    (hs : ∀ e ∈ s.projected, e.space = .perceived) (hlen : s.errors.length = s.projected.length)
    (hsees : ctx.deficiency.Sees c.color eye)
    (he : colorError ctx s.projected c.place eye = .ok c.error) :
    (applyChoice ctx c).apply s = .ok t ↔
      c.place < s.projected.length ∧ c.place < s.memory.length ∧
        ∃ q es, s.projector.project c.color = .ok q ∧
          colorErrors ctx (s.projected.set c.place q.eye) = .ok es ∧
          t = { s with
            palette := s.palette.set c.place c.color, projector := q
            projected := s.projected.set c.place q.eye, errors := es
            memory := s.memory.set c.place c.memory } := by
  have hself := Eye.forall₂_agrees_self hs
  have herror {q} (hk : c.place < s.projected.length) (hq : s.projector.project c.color = .ok q) :
      (s.projected.set c.place q.eye)[c.place]? = some q.eye ∧
        colorError ctx (s.projected.set c.place q.eye) c.place q.eye = .ok c.error := by
    refine ⟨List.getElem?_set_self hk, ?_⟩
    rw [colorError_set, ← he]
    exact colorError_congr ((Projector.serves_project hp hq).2.agrees hsees) hself
  have hlen' {x : Eye α} : s.errors.length = (s.projected.set c.place x).length := by
    rw [List.length_set]
    exact hlen
  rw [Update.apply_eq_ok]
  unfold applyChoice
  simp only [Update.runOn_bind_eq_ok, runOn_recolor_eq_ok hp hs]
  constructor
  · rintro ⟨_, _, ⟨hk, q, hq, rfl⟩, _, _, hr, hm⟩
    obtain ⟨heye, hce⟩ := herror hk hq
    obtain ⟨es, hes, rfl⟩ := (runOn_renewErrors_eq_ok hlen' heye hce).1 hr
    obtain ⟨hmem, rfl⟩ := runOn_remember_eq_ok.1 hm
    exact ⟨hk, hmem, q, es, hq, hes, rfl⟩
  · rintro ⟨hk, hm, q, es, hq, hes, rfl⟩
    obtain ⟨heye, hce⟩ := herror hk hq
    exact ⟨(), _, ⟨hk, q, hq, rfl⟩, (), _,
      (runOn_renewErrors_eq_ok hlen' heye hce).2 ⟨es, hes, rfl⟩, runOn_remember_eq_ok.2 ⟨hm, rfl⟩⟩

/-! ### The step -/

theorem tabuStep_eq_ok {first : Triple α} (hfirst : s.palette.head? = some first) :
    (tabuStep ctx).apply s = .ok t ↔ ∃ tried q best,
      (candidates ctx s).run s.projector = .ok (tried, q) ∧
        Candidate.firstLeast tried = .ok best ∧
        (applyChoice ctx (choose first best)).apply { s with projector := q } = .ok t := by
  obtain ⟨rest, hpalette⟩ := List.head?_eq_some_iff.1 hfirst
  rw [Update.apply_eq_ok]
  unfold tabuStep
  rw [Update.runOn_bind_of_ok (Update.runOn_get _)]
  simp only [hpalette, Update.apply_eq_ok, Update.runOn_bind_eq_ok, Update.runOn_modify,
    Update.runOn_liftM, Prod.mk.injEq]
  rw [← hpalette]
  constructor
  · rintro ⟨⟨tried, q⟩, _, ⟨htried, rfl⟩, _, _, ⟨-, rfl⟩, best, _, ⟨hbest, rfl⟩, h⟩
    exact ⟨tried, q, best, htried, hbest, h⟩
  · rintro ⟨tried, q, best, htried, hbest, h⟩
    exact ⟨(tried, q), _, ⟨htried, rfl⟩, (), _, ⟨trivial, rfl⟩, best, _, ⟨hbest, rfl⟩, h⟩

theorem runOn_tabuStep_nil (h : s.palette = []) : (tabuStep ctx).runOn s = (.ok (), s) := by
  unfold tabuStep
  rw [Update.runOn_bind_of_ok (Update.runOn_get _), h]
  rfl

end State

end Dichromat
