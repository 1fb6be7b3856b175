import Dichromat.Proofs.Exact.Phase
import Dichromat.Proofs.Search.Moves
import Dichromat.Proofs.Search.Serving

/-!
# Coming back to a palette

A move that is not cut off at the border of the gamut shifts one channel by the step
(`Exact.Shifts`), so the channels of a palette add up to another sum after an odd number of moves
(`Exact.total_of_shifts`). Two moves do not lead back either, as a colour must not undo its last one
(`Exact.palette_ne_of_two`), so that a search needs at least four to come back to a palette
(`State.palette_ne_of_after`).
-/

namespace Dichromat

namespace State

open Update

/-! ### What a move changes -/

section Move

variable {α : Type} [ColorArith α] {ctx : Context α} {s t : State α}

/-- Whatever the errors are, applying a choice sets the colour and its memory. -/
theorem palette_of_applyChoice {c : Choice α} (h : (applyChoice ctx c).apply s = .ok t) :
    t.palette = s.palette.set c.place c.color ∧ t.memory = s.memory.set c.place c.memory := by
  rw [apply_eq_ok] at h
  unfold applyChoice at h
  simp only [runOn_bind_eq_ok, runOn_remember_eq_ok] at h
  obtain ⟨_, u, hrecolor, _, v, hrenew, -, rfl⟩ := h
  have hu : u.palette = s.palette.set c.place c.color ∧ u.memory = s.memory := by
    unfold recolor at hrecolor
    simp only [runOn_bind_eq_ok, runOn_modify, runOn_get, Prod.mk.injEq] at hrecolor
    obtain ⟨_, _, ⟨-, rfl⟩, _, _, ⟨-, rfl⟩, h⟩ := hrecolor
    split at h
    · simp only [runOn_bind_eq_ok, runOn_get, runOn_modify, runOn_liftM, Prod.mk.injEq] at h
      obtain ⟨_, _, ⟨-, rfl⟩, _, _, ⟨-, rfl⟩, _, _, ⟨-, rfl⟩, -, rfl⟩ := h
      exact ⟨rfl, rfl⟩
    · simp at h
  have hkeeps : (renewErrors ctx c).Keeps fun s : State α => (s.palette, s.memory) :=
    keeps_renewErrors (fun _ _ => rfl) c
  have hv := hkeeps.apply (apply_eq_ok.2 hrenew)
  simp only [Prod.mk.injEq] at hv
  exact ⟨hv.1.trans hu.1, congrArg (·.set c.place c.memory) (hv.2.trans hu.2)⟩

/-- A step that changes the palette makes an allowed move. -/
theorem exists_move_of_tabuStep (hs : Served ctx s) (h : (tabuStep ctx).apply s = .ok t)
    (hne : s.palette ≠ t.palette) : ∃ c : Candidate α, c.Tried ctx s ∧
      t.palette = s.palette.set c.place c.color ∧ t.memory = s.memory.set c.place c.memory := by
  rcases hfirst : s.palette.head? with _ | first
  · rw [apply_eq_ok, runOn_tabuStep_nil (List.head?_eq_none_iff.1 hfirst)] at h
    exact absurd (congrArg State.palette (Prod.mk.inj h).2) hne
  · obtain ⟨tried, q, best, htried, hbest, h⟩ := (tabuStep_eq_ok hfirst).1 h
    obtain ⟨hpalette, hmemory⟩ := palette_of_applyChoice h
    cases best with
    | none =>
      obtain ⟨rest, hpal⟩ := List.head?_eq_some_iff.1 hfirst
      rw [hpalette] at hne
      exact absurd (by simp [hpal, choose]) hne
    | some c =>
      have hc := (tried_of_candidates hs htried).2.1 c (Candidate.firstLeast_mem hbest)
      exact ⟨c, hc, hpalette, hmemory⟩

/-- The value of a channel of a colour of a palette. -/
def channelAt (palette : List (Triple α)) (place : Nat) (k : Channel) : Option α :=
  palette[place]?.map (·.get k)

/-- One channel of one colour is moved, within its range. -/
def Turns (step : α) (p q : List (Triple α)) (place : Nat) (k : Channel) (d : Direction) : Prop :=
  ∃ color x, p[place]? = some color ∧ moved step (color.get k) d = .ok x ∧
    q = p.set place (color.set k x)

theorem turns_of_tried {c : Candidate α} (hc : c.Tried ctx s) :
    Turns ctx.settings.step s.palette (s.palette.set c.place c.color) c.place c.channel
      c.direction := by
  obtain ⟨color, x, hcolor, hx, hset⟩ := hc.color
  exact ⟨color, x, hcolor, hx, congrArg _ hset⟩

section Turns

variable {step : α} {p q : List (Triple α)} {place : Nat} {k : Channel} {d : Direction}

theorem Turns.channelAt_self (h : Turns step p q place k d) : ∃ x y,
    channelAt p place k = some x ∧ moved step x d = .ok y ∧ channelAt q place k = some y := by
  obtain ⟨color, y, hcolor, hy, rfl⟩ := h
  refine ⟨color.get k, y, congrArg _ hcolor, hy, ?_⟩
  rw [channelAt, List.getElem?_set_self (List.getElem?_eq_some_iff.1 hcolor).1, Option.map_some,
    Triple.get_set_self]

theorem Turns.channelAt_of_ne (h : Turns step p q place k d) {place' : Nat} {k' : Channel}
    (hne : place' = place → k' ≠ k) : channelAt q place' k' = channelAt p place' k' := by
  obtain ⟨color, y, hcolor, -, rfl⟩ := h
  by_cases hplace : place' = place
  · subst hplace
    rw [channelAt, channelAt, List.getElem?_set_self (List.getElem?_eq_some_iff.1 hcolor).1, hcolor,
      Option.map_some, Option.map_some, Triple.get_set_of_ne _ _ (hne rfl)]
  · rw [channelAt, channelAt, List.getElem?_set_ne (Ne.symm hplace)]

/-- A palette whose channel keeps its value is the same. -/
theorem Turns.eq_of_channelAt (h : Turns step p q place k d)
    (hk : channelAt q place k = channelAt p place k) : p = q := by
  obtain ⟨x, y, hx, -, hy⟩ := h.channelAt_self
  obtain ⟨color, z, hcolor, -, rfl⟩ := h
  have hz : (color.set k z).get k = color.get k := by
    rw [channelAt, channelAt, List.getElem?_set_self (List.getElem?_eq_some_iff.1 hcolor).1,
      hcolor] at hk
    exact Option.some.inj hk
  have hsame : color.set k z = color := by
    refine Triple.ext_get fun l => ?_
    by_cases hl : l = k
    · rw [hl, hz]
    · rw [Triple.get_set_of_ne _ _ hl]
  obtain ⟨hlt, rfl⟩ := List.getElem?_eq_some_iff.1 hcolor
  rw [hsame, List.set_getElem_self]

end Turns

theorem served_of_after {n : Nat} (hs : Served ctx s) (h : after ctx s n = .ok t) :
    Served ctx t := by
  induction n generalizing t with
  | zero =>
    obtain rfl := Except.ok.inj h
    exact hs
  | succ n ih =>
    obtain ⟨v, hv, ht⟩ := bind_eq_ok.1 h
    exact preserves_tabuStep.apply (ih hv) ht

end Move

end State

noncomputable section

namespace Exact

open State

variable {ctx : Context ℝ} {s t u v w : State ℝ} {step : ℝ} {p q : List (Triple ℝ)} {place : ℕ}
  {k : Channel} {d : Direction}

/-! ### Two moves -/

theorem sign_eq_neg_of_ne {d d' : Direction} (h : d' ≠ d) : d'.sign = -d.sign := by
  cases d <;> cases d' <;> first | rfl | exact absurd rfl h

/-- A channel within its range does not move against its direction. -/
theorem moved_monotone (hstep : 0 < step) {x y : ℝ} (hx : x ∈ Set.Icc (0 : ℝ) 1)
    (h : moved step x d = .ok y) : (d = .down → y ≤ x) ∧ (d = .up → x ≤ y) := by
  rw [moved_eq] at h
  obtain rfl := Except.ok.inj h
  constructor
  · rintro rfl
    refine min_le_of_left_le (max_le ?_ hx.1)
    rw [Direction.sign, Int.cast_neg, Int.cast_one]
    linarith
  · rintro rfl
    refine le_min (le_max_of_le_left ?_) hx.2
    rw [Direction.sign, Int.cast_one]
    linarith

/-- A move and one back are moves of one channel in opposite directions. -/
theorem turns_back (hstep : 0 < step) {place' : ℕ} {k' : Channel} {d' : Direction}
    (hpq : Turns step p q place k d) (hqp : Turns step q p place' k' d') (hne : p ≠ q) :
    place' = place ∧ k' = k ∧ d' ≠ d := by
  have hchanged : channelAt q place k ≠ channelAt p place k := fun h => hne (hpq.eq_of_channelAt h)
  by_cases hmove : place' = place ∧ k' = k
  · obtain ⟨rfl, rfl⟩ := hmove
    refine ⟨rfl, rfl, ?_⟩
    rintro rfl
    obtain ⟨x, y, hx, hxy, hy⟩ := hpq.channelAt_self
    obtain ⟨y', x', hy', hyx, hx'⟩ := hqp.channelAt_self
    obtain rfl := Option.some.inj (hy.symm.trans hy')
    obtain rfl := Option.some.inj (hx.symm.trans hx')
    have hforth := moved_monotone hstep (moved_mem hyx) hxy
    have hback := moved_monotone hstep (moved_mem hxy) hyx
    rw [hx, hy] at hchanged
    cases d' with
    | down => exact hchanged (congrArg some ((hforth.1 rfl).antisymm (hback.1 rfl)))
    | up => exact hchanged (congrArg some ((hback.2 rfl).antisymm (hforth.2 rfl)))
  · refine absurd (hqp.channelAt_of_ne fun hplace => ?_).symm hchanged
    exact fun hk => hmove ⟨hplace.symm, hk.symm⟩

/-- Two moves do not lead back, as the first one is not to be undone. -/
theorem palette_ne_of_two (hstep : 0 < ctx.settings.step) (hs : Served ctx s)
    (ht : (tabuStep ctx).apply s = .ok t) (hu : (tabuStep ctx).apply t = .ok u)
    (hst : s.palette ≠ t.palette) (htu : t.palette ≠ u.palette) : s.palette ≠ u.palette := by
  intro hback
  obtain ⟨a, ha, hpalette, hmemory⟩ := exists_move_of_tabuStep hs ht hst
  obtain ⟨b, hb, hpalette', -⟩ := exists_move_of_tabuStep (preserves_tabuStep.apply hs ht) hu htu
  have hab := turns_of_tried ha
  have hba := turns_of_tried hb
  rw [← hpalette] at hab
  rw [← hpalette', ← hback] at hba
  obtain ⟨hplace, hk, hd⟩ := turns_back hstep hab hba hst
  -- the memory that the second move finds is the one that the first move has left
  obtain ⟨m, hm, -⟩ := ha.allowed
  obtain ⟨m', hm', hallows⟩ := hb.allowed
  rw [hplace, hmemory, List.getElem?_set_self (List.getElem?_eq_some_iff.1 hm).1] at hm'
  rw [← Option.some.inj hm', hk] at hallows
  have hforbidden : allows a.memory a.channel b.direction = .ok false := by
    have hentry : a.memory[a.channel.index]? = some b.direction.sign := by
      rw [sign_eq_neg_of_ne hd]
      unfold Candidate.memory
      cases a.channel <;> rfl
    rw [allows, hentry]
    simp
  exact absurd (Except.ok.inj (hforbidden.symm.trans hallows)) Bool.false_ne_true

/-! ### An odd number of moves -/

/-- One channel of one colour is shifted by the step. -/
def Shifts (step : ℝ) (p q : List (Triple ℝ)) : Prop :=
  ∃ (place : ℕ) (color : Triple ℝ) (k : Channel) (d : Direction), p[place]? = some color ∧
    q = p.set place (color.set k (color.get k + d.sign * step))

/-- The sum of all channels. -/
def total (palette : List (Triple ℝ)) : ℝ := (palette.map fun c => c.red + c.green + c.blue).sum

theorem total_of_shifts (h : Shifts step p q) :
    ∃ d : Direction, total q = total p + d.sign * step := by
  obtain ⟨place, color, k, d, hcolor, rfl⟩ := h
  obtain ⟨hplace, rfl⟩ := List.getElem?_eq_some_iff.1 hcolor
  refine ⟨d, ?_⟩
  rw [total, total, List.map_set, List.sum_set', dif_pos (by rwa [List.length_map]),
    List.getElem_map]
  cases k <;> simp only [Triple.set, Triple.get] <;> ring

theorem palette_ne_of_shifts (hstep : 0 < step) (h : Shifts step p q) : p ≠ q := by
  rintro rfl
  obtain ⟨d, hd⟩ := total_of_shifts h
  cases d <;> simp [Direction.sign] at hd <;> linarith

/-- After so many shifts the sum of all channels has changed by an even or by an odd number of
steps. -/
theorem total_of_after {n j : ℕ} (hu : after ctx s n = .ok u) (hv : after ctx s (n + j) = .ok v)
    (hshifts : ∀ m < n + j, ∀ a b, after ctx s m = .ok a → after ctx s (m + 1) = .ok b →
      Shifts step a.palette b.palette) :
    ∃ z : ℤ, (z + j) % 2 = 0 ∧ total v.palette = total u.palette + z * step := by
  induction j generalizing v with
  | zero =>
    obtain rfl := Except.ok.inj (hu.symm.trans hv)
    exact ⟨0, rfl, by simp⟩
  | succ j ih =>
    obtain ⟨w, hw, -⟩ := bind_eq_ok.1 hv
    obtain ⟨z, hz, htotal⟩ := ih hw fun m hm => hshifts m (Nat.lt_succ_of_lt hm)
    obtain ⟨d, hd⟩ := total_of_shifts (hshifts (n + j) (Nat.lt_succ_self _) w v hw hv)
    refine ⟨z + d.sign, ?_, ?_⟩
    · have hsign : d.sign = 1 ∨ d.sign = -1 := by cases d <;> simp [Direction.sign]
      push_cast
      omega
    · rw [hd, htotal]
      push_cast
      ring

/-! ### Far from the border -/

/-- All channels stand at least so far from the border of the gamut. -/
def Inside (margin : ℝ) (palette : List (Triple ℝ)) : Prop :=
  ∀ c ∈ palette, ∀ k, c.get k ∈ Set.Icc margin (1 - margin)

/-- Where no channel is as close to the border as the step is wide, a move is not cut off. -/
theorem shifts_of_turns {margin : ℝ} (hstep : 0 ≤ step) (hmargin : step ≤ margin)
    (hp : Inside margin p) (h : Turns step p q place k d) :
    Shifts step p q ∧ Inside (margin - step) q := by
  obtain ⟨color, x, hcolor, hx, rfl⟩ := h
  have hinside := hp color (List.mem_of_getElem? hcolor)
  obtain ⟨hlow, hhigh⟩ := hinside k
  have hbounds : color.get k - step ≤ color.get k + d.sign * step ∧
      color.get k + d.sign * step ≤ color.get k + step := by
    cases d with
    | down =>
      rw [Direction.sign, Int.cast_neg, Int.cast_one]
      constructor <;> linarith
    | up =>
      rw [Direction.sign, Int.cast_one]
      constructor <;> linarith
  have hmoved : x = color.get k + d.sign * step := by
    rw [moved_eq, max_eq_left (by linarith), min_eq_left (by linarith)] at hx
    exact (Except.ok.inj hx).symm
  refine ⟨⟨place, color, k, d, hcolor, hmoved ▸ rfl⟩, fun c hc l => ?_⟩
  have hweaker {y : ℝ} (hy : y ∈ Set.Icc margin (1 - margin)) :
      y ∈ Set.Icc (margin - step) (1 - (margin - step)) :=
    ⟨by linarith [hy.1], by linarith [hy.2]⟩
  rcases List.mem_or_eq_of_mem_set hc with hc | rfl
  · exact hweaker (hp c hc l)
  · by_cases hl : l = k
    · rw [hl, Triple.get_set_self, hmoved]
      constructor <;> linarith
    · rw [Triple.get_set_of_ne _ _ hl]
      exact hweaker (hinside l)

theorem Sound.shifts {margin : ℝ} (hs : Sound ctx s) (hne : s.palette ≠ [])
    (hstep : 0 ≤ ctx.settings.step) (hmargin : ctx.settings.step ≤ margin)
    (hinside : Inside margin s.palette) (h : (State.tabuStep ctx).apply s = .ok t) :
    Shifts ctx.settings.step s.palette t.palette ∧
      Inside (margin - ctx.settings.step) t.palette ∧ t.palette ≠ [] := by
  rcases hs.coherent.tabuStep_cases hs.hasMove h with
    ⟨hnil, -⟩ | ⟨tried, q, c, -, hmem, -, hbest, happly⟩
  · exact absurd hnil hne
  have hc := (hmem c).1 (Candidate.firstLeast_mem hbest)
  obtain ⟨hpalette, -⟩ := palette_of_applyChoice happly
  have hturns := turns_of_tried hc
  rw [← show t.palette = s.palette.set c.place c.color from hpalette] at hturns
  obtain ⟨hshifts, hinside⟩ := shifts_of_turns hstep hmargin hinside hturns
  refine ⟨hshifts, hinside, ?_⟩
  rw [hpalette]
  exact fun hnil => hne ((List.set_eq_nil_iff ..).1 hnil)

/-- A search goes on for any number of moves. -/
theorem exists_after (hs : Ready ctx s) (n : ℕ) : ∃ v, after ctx s n = .ok v ∧ Sound ctx v := by
  induction n with
  | zero => exact ⟨s.opened, rfl, hs.opened⟩
  | succ n ih =>
    obtain ⟨v, hv, hsound⟩ := ih
    obtain ⟨w, hw⟩ := hsound.exists_tabuStep
    exact ⟨w, bind_eq_ok.2 ⟨v, hv, hw⟩, hsound.tabuStep hw⟩

/-- As many moves are not cut off as steps fit between the palette and the border. -/
theorem inside_of_after {margin : ℝ} (hs : Ready ctx s) (hne : s.palette ≠ [])
    (hstep : 0 ≤ ctx.settings.step) (hinside : Inside margin s.palette) {n : ℕ}
    (hn : n * ctx.settings.step ≤ margin) (h : after ctx s n = .ok v) :
    Inside (margin - n * ctx.settings.step) v.palette ∧ v.palette ≠ [] := by
  induction n generalizing v with
  | zero =>
    obtain rfl := Except.ok.inj h
    rw [Nat.cast_zero, zero_mul, sub_zero]
    exact ⟨hinside, hne⟩
  | succ n ih =>
    obtain ⟨w, hw, hv⟩ := bind_eq_ok.1 h
    obtain ⟨w', hw', hsound⟩ := exists_after hs n
    obtain rfl := Except.ok.inj (hw'.symm.trans hw)
    rw [Nat.cast_succ, add_one_mul] at hn ⊢
    obtain ⟨hinside, hne⟩ := ih (by linarith) hw
    obtain ⟨-, hinside, hne⟩ := hsound.shifts hne hstep (by linarith) hinside hv
    rw [sub_sub] at hinside
    exact ⟨hinside, hne⟩

theorem shifts_of_after {margin : ℝ} (hs : Ready ctx s) (hne : s.palette ≠ [])
    (hstep : 0 ≤ ctx.settings.step) (hinside : Inside margin s.palette) {n : ℕ}
    (hn : (n + 1) * ctx.settings.step ≤ margin) (hu : after ctx s n = .ok u)
    (hv : after ctx s (n + 1) = .ok v) : Shifts ctx.settings.step u.palette v.palette := by
  obtain ⟨w, hw, hv⟩ := bind_eq_ok.1 hv
  obtain rfl := Except.ok.inj (hw.symm.trans hu)
  obtain ⟨w', hw', hsound⟩ := exists_after hs n
  obtain rfl := Except.ok.inj (hw'.symm.trans hw)
  rw [add_one_mul] at hn
  obtain ⟨hinside, hne⟩ := inside_of_after hs hne hstep hinside (by linarith) hw
  exact (hsound.shifts hne hstep (by linarith) hinside hv).1

end Exact

namespace State

open Exact

variable {ctx : Context ℝ} {s u v : State ℝ}

/-- In a search none of whose moves is cut off at the border, at least four moves lie between two
occurrences of a palette. -/
theorem palette_ne_of_after {n j : ℕ} (hs : Served ctx s) (hstep : 0 < ctx.settings.step)
    (hj : 0 < j ∧ j ≤ 3) (hu : after ctx s n = .ok u) (hv : after ctx s (n + j) = .ok v)
    (hshifts : ∀ m < n + j, ∀ a b, after ctx s m = .ok a → after ctx s (m + 1) = .ok b →
      Shifts ctx.settings.step a.palette b.palette) : u.palette ≠ v.palette := by
  by_cases htwo : j = 2
  · subst htwo
    obtain ⟨w, hw, hwv⟩ := bind_eq_ok.1 hv
    obtain ⟨u', hu', huw⟩ := bind_eq_ok.1 hw
    obtain rfl := Except.ok.inj (hu'.symm.trans hu)
    have hfirst := hshifts n (by omega) _ w hu hw
    have hsecond := hshifts (n + 1) (by omega) w v hw hv
    exact palette_ne_of_two hstep (served_of_after hs hu) huw hwv
      (palette_ne_of_shifts hstep hfirst) (palette_ne_of_shifts hstep hsecond)
  · -- one move or three change the sum of all channels by an odd number of steps
    obtain ⟨z, hz, htotal⟩ := total_of_after hu hv hshifts
    have hodd : z ≠ 0 := by omega
    intro hsame
    rw [hsame, left_eq_add] at htotal
    exact mul_ne_zero (Int.cast_ne_zero.2 hodd) hstep.ne' htotal

/-- Three moves from two greys under red-blindness, with a step that leaves room for them. -/
theorem palette_ne_of_after_greys : ∃ (ctx : Context ℝ) (s u v : State ℝ),
    Context.ofLinear [Triple.replicate (1 / 2), Triple.replicate (2 / 5)] .red
        { Settings.standard with step := (1 / 10 : ℝ) } = .ok ctx ∧
      Served ctx s ∧ 0 < ctx.settings.step ∧ after ctx s 0 = .ok u ∧ after ctx s (0 + 3) = .ok v ∧
      (∀ m < 0 + 3, ∀ a b, after ctx s m = .ok a → after ctx s (m + 1) = .ok b →
        Shifts ctx.settings.step a.palette b.palette) ∧ u.palette ≠ v.palette := by
  have hinside : Inside (3 / 10) [Triple.replicate (1 / 2), Triple.replicate (2 / 5)] := by
    intro c hc k
    rcases List.mem_pair.1 hc with rfl | rfl <;> cases k <;>
      norm_num [Triple.replicate, Triple.get]
  have hgamut : ∀ c ∈ [Triple.replicate (1 / 2 : ℝ), Triple.replicate (2 / 5)], InGamut c := by
    intro c hc k
    obtain ⟨hlow, hhigh⟩ := hinside c hc k
    constructor <;> linarith
  obtain ⟨ctx, hctx, hregular, ho, hd, hset⟩ := exists_regular hgamut .red
    (show 0 ≤ ({ Settings.standard with step := 1 / 10 } : Settings ℝ).zeroDistanceThreshold from
      standard_threshold_nonneg)
  have hwidth : ctx.settings.step = 1 / 10 := by rw [hset]
  obtain ⟨s, hs⟩ := exists_prepare hregular (served_idle .tabuSum) hregular.original 0
  obtain ⟨hready, -⟩ := ready_of_prepare (served_idle .tabuSum) hregular.original hs
  have hpalette : s.palette = [Triple.replicate (1 / 2), Triple.replicate (2 / 5)] :=
    (phase_of_prepare hs).2.trans ho
  have hne : s.palette ≠ [] := hpalette ▸ List.cons_ne_nil _ _
  obtain ⟨u, hu, -⟩ := exists_after hready 0
  obtain ⟨v, hv, -⟩ := exists_after hready (0 + 3)
  have hstep : 0 < ctx.settings.step := by
    rw [hwidth]
    norm_num
  have hshifts : ∀ m < 0 + 3, ∀ a b, after ctx s m = .ok a → after ctx s (m + 1) = .ok b →
      Shifts ctx.settings.step a.palette b.palette := by
    intro m hm a b ha hb
    have hroom : ((m : ℝ) + 1) * ctx.settings.step ≤ 3 / 10 := by
      have hcast : (m : ℝ) + 1 ≤ 3 := by exact_mod_cast hm
      rw [hwidth]
      linarith
    exact shifts_of_after hready hne hstep.le (hpalette ▸ hinside) hroom ha hb
  exact ⟨ctx, s, u, v, hctx, hready.coherent.projector, hstep, hu, hv, hshifts,
    palette_ne_of_after hready.coherent.projector hstep ⟨by decide, le_rfl⟩ hu hv hshifts⟩

end State

end

end Dichromat
