import Dichromat.Proofs.Exact.Alike
import Dichromat.Proofs.Exact.Input
import Dichromat.Proofs.Search.Cycles
import Dichromat.Proofs.Search.Selection

/-!
# Steps that leave the palette as it is

A move that pushes a channel outward at the border of the gamut changes nothing and has no gain. A
step makes such a move where it is the first one of least gain
(`State.palette_eq_iff_outward`), and a step that changes neither the palette nor a memory is
repeated for ever (`State.Coherent.stands`).
-/

namespace Dichromat

namespace State

section Repeated

variable {α : Type} [ColorArith α] {ctx : Context α} {s t u v : State α}

/-! ### What a step depends on -/

/-- Moves are weighed by the palette and the memories alone. -/
theorem Coherent.tried_congr (hs : s.Coherent ctx) (ht : t.Coherent ctx)
    (hp : t.palette = s.palette) (hm : t.memory = s.memory) {c : Candidate α}
    (hc : c.Tried ctx s) : c.Tried ctx t := by
  have hsees := ht.sees
  rw [hp] at hsees
  have hagree : List.Forall₂ Eye.Agrees s.projected t.projected :=
    forall₂_of_common (fun _ _ _ h h' => h.agrees h') hs.sees hsees
  have herrors : t.errors = s.errors :=
    Except.ok.inj (ht.errors.symm.trans (colorErrors_congr hagree hs.errors))
  obtain ⟨eye, heye, he⟩ := hc.error
  have hself := Eye.Agrees.refl heye.perceived
  exact ⟨hm ▸ hc.allowed, hp ▸ hc.color, ⟨eye, heye, (colorError_congr hself hagree).symm.trans he⟩,
    herrors ▸ hc.gain⟩

/-- Candidates are the same if their moves are. -/
theorem eq_of_map_move {cs cs' : List (Candidate α)} (hs : ∀ e ∈ s.projected, e.space = .perceived)
    (h : ∀ c ∈ cs, c.Tried ctx s) (h' : ∀ c ∈ cs', c.Tried ctx s)
    (hmove : cs.map Candidate.move = cs'.map Candidate.move) : cs = cs' := by
  induction cs generalizing cs' with
  | nil => exact (List.map_eq_nil_iff.1 hmove.symm).symm
  | cons c cs ih =>
    obtain ⟨c', cs', rfl, hc, hcs⟩ := List.map_eq_cons_iff.1 hmove.symm
    simp only [Candidate.move, Prod.mk.injEq] at hc
    obtain ⟨hplace, hk, hd⟩ := hc
    rw [List.forall_mem_cons] at h h'
    rw [h.1.ext h'.1 hs hplace.symm hk.symm hd.symm, ih h.2 h'.2 hcs.symm]

/-- So what a step leaves of them depends on them alone. -/
theorem Coherent.tabuStep_congr (hs : s.Coherent ctx) (ht : t.Coherent ctx) (hmove : s.HasMove ctx)
    (hp : t.palette = s.palette) (hm : t.memory = s.memory)
    (hu : (State.tabuStep ctx).apply s = .ok u) (hv : (State.tabuStep ctx).apply t = .ok v) :
    v.palette = u.palette ∧ v.memory = u.memory := by
  have hmove' : t.HasMove ctx := by
    rcases hmove with hnil | ⟨c, hc, hb⟩
    · exact Or.inl (hp.trans hnil)
    · exact Or.inr ⟨c, hs.tried_congr ht hp hm hc, hb⟩
  rcases hs.tabuStep_cases hmove hu with ⟨hnil, rfl⟩ | ⟨tried, q, c, -, hmem, hscan, hbest, hc⟩
  · rcases ht.tabuStep_cases hmove' hv with ⟨-, rfl⟩ | ⟨_, _, c, -, hmem, -, hbest, -⟩
    · exact ⟨hp, hm⟩
    · have hc := (hmem c).1 (Candidate.firstLeast_mem hbest)
      exact absurd (hp.trans hnil) hc.palette_ne_nil
  · have hwinner := (hmem c).1 (Candidate.firstLeast_mem hbest)
    rcases ht.tabuStep_cases hmove' hv with
      ⟨hnil, -⟩ | ⟨tried', q', c', -, hmem', hscan', hbest', hc'⟩
    · exact absurd (hp.symm.trans hnil) hwinner.palette_ne_nil
    · have hpermitted : t.permitted = s.permitted := by
        unfold permitted permits
        rw [hp, hm]
      have htried : tried = tried' :=
        eq_of_map_move ht.perceived (fun c hc => hs.tried_congr ht hp hm ((hmem c).1 hc))
          (fun c hc => (hmem' c).1 hc) (hscan.trans (hpermitted.symm.trans hscan'.symm))
      rw [← htried, hbest] at hbest'
      obtain rfl := Option.some.inj (Except.ok.inj hbest')
      obtain ⟨hu₁, hu₂⟩ := palette_of_applyChoice hc
      obtain ⟨hv₁, hv₂⟩ := palette_of_applyChoice hc'
      simp only [hu₁, hu₂, hv₁, hv₂, hp, hm, and_self]

/-- A step that changes neither the palette nor a memory is repeated for ever. -/
theorem Coherent.stands (hs : s.Coherent ctx) (hmove : s.HasMove ctx)
    (ht : (State.tabuStep ctx).apply s = .ok t) (hp : t.palette = s.palette)
    (hm : t.memory = s.memory) (h : Stepped ctx t u) :
    u.palette = s.palette ∧ u.memory = s.memory := by
  have htc := hs.tabuStep hmove ht
  induction h with
  | none => exact ⟨hp, hm⟩
  | step hsteps _ hu ih =>
    obtain ⟨hpalette, hmemory⟩ :=
      hs.tabuStep_congr (htc.stepped hsteps) hmove ih.1 ih.2 ht hu
    exact ⟨hpalette.trans hp, hmemory.trans hm⟩

end Repeated

end State

/-! ### Moves outward -/

noncomputable section

/-- Where a direction leads to. -/
def Direction.border : Direction → ℝ
  | .down => 0
  | .up => 1

/-- A candidate that pushes its channel outward at the border of the gamut. -/
def Candidate.Outward (s : State ℝ) (c : Candidate ℝ) : Prop :=
  State.channelAt s.palette c.place c.channel = some c.direction.border

namespace Exact

open State

variable {ctx : Context ℝ} {s t : State ℝ} {c w : Candidate ℝ} {cs : List (Candidate ℝ)}

theorem moved_eq_self_iff {step x : ℝ} (hstep : 0 < step) (hx : x ∈ Set.Icc (0 : ℝ) 1)
    (d : Direction) : moved step x d = .ok x ↔ x = d.border := by
  rw [moved_eq, Except.ok.injEq]
  obtain ⟨hlow, hhigh⟩ := hx
  cases d with
  | down =>
    rw [Direction.sign, Direction.border, Int.cast_neg, Int.cast_one]
    constructor
    · intro h
      by_contra hne
      have hpos := lt_of_le_of_ne hlow (Ne.symm hne)
      have hless : max (x + -1 * step) 0 < x := max_lt (by linarith) hpos
      exact absurd h ((min_le_left _ _).trans_lt hless).ne
    · rintro rfl
      rw [max_eq_right (by linarith), min_eq_left zero_le_one]
  | up =>
    rw [Direction.sign, Direction.border, Int.cast_one]
    constructor
    · intro h
      by_contra hne
      have hless : x < min (max (x + 1 * step) 0) 1 :=
        lt_min (lt_max_of_lt_left (by linarith)) (lt_of_le_of_ne hhigh hne)
      exact absurd h hless.ne'
    · rintro rfl
      rw [max_eq_left (by linarith), min_eq_right (by linarith)]

/-- A move leaves a palette in the gamut as it is just if it leads outward. -/
theorem set_color_eq_iff (hgamut : ∀ c ∈ s.palette, InGamut c) (hstep : 0 < ctx.settings.step)
    (hc : c.Tried ctx s) : s.palette.set c.place c.color = s.palette ↔ c.Outward s := by
  have hturns := turns_of_tried hc
  obtain ⟨x, y, hx, hxy, hy⟩ := hturns.channelAt_self
  obtain ⟨color, _, hcolor, -⟩ := hc.color
  have hvalue : color.get c.channel = x := by
    rw [channelAt, hcolor] at hx
    exact Option.some.inj hx
  have hmem : x ∈ Set.Icc (0 : ℝ) 1 :=
    hvalue ▸ hgamut color (List.mem_of_getElem? hcolor) c.channel
  have hsame : s.palette.set c.place c.color = s.palette ↔ y = x := by
    constructor
    · intro h
      rw [h, hx] at hy
      exact (Option.some.inj hy).symm
    · intro h
      exact (hturns.eq_of_channelAt (hy.trans (h ▸ hx.symm))).symm
  rw [hsame, Candidate.Outward, hx, Option.some.injEq, ← moved_eq_self_iff hstep hmem]
  constructor
  · rintro rfl
    exact hxy
  · intro h
    exact Except.ok.inj (hxy.symm.trans h)

/-- What changes nothing has no gain. -/
theorem gain_eq_zero (hs : s.Coherent ctx) (hc : c.Tried ctx s)
    (hsame : s.palette.set c.place c.color = s.palette) : c.gain = 0 := by
  obtain ⟨color, _, hcolor, -⟩ := hc.color
  have hplace := (List.getElem?_eq_some_iff.1 hcolor).1
  have hself : s.palette[c.place]? = some c.color := by
    rw [← hsame, List.getElem?_set_self hplace]
  obtain ⟨eye, heye, hsees⟩ := exists_right_of_getElem? hs.sees hself
  obtain ⟨-, hgain⟩ := hs.gain_eq hc hsees
  rw [hgain, seenAt_of_getElem? heye, sub_self]

/-! ### The first of least gain -/

theorem wins_iff : c.Wins cs ↔ ∃ before after, cs = before ++ c :: after ∧
    (∀ a ∈ before, c.gain < a.gain) ∧ ∀ a ∈ after, c.gain ≤ a.gain := by
  simp only [Candidate.Wins, lt_eq, Except.ok.injEq, decide_eq_true_eq, decide_eq_false_iff_not,
    not_lt]

theorem le_of_wins (h : c.Wins cs) : ∀ a ∈ cs, c.gain ≤ a.gain := by
  obtain ⟨before, after, rfl, hbefore, hafter⟩ := wins_iff.1 h
  intro a ha
  rcases List.mem_append.1 ha with ha | ha
  · exact (hbefore a ha).le
  · rcases List.mem_cons.1 ha with rfl | ha
    · exact le_rfl
    · exact hafter a ha

theorem find?_of_wins (h : c.Wins cs) : cs.find? (fun a => decide (a.gain ≤ c.gain)) = some c := by
  obtain ⟨before, after, rfl, hbefore, -⟩ := wins_iff.1 h
  have hnone : before.find? (fun a => decide (a.gain ≤ c.gain)) = none := by
    rw [List.find?_eq_none]
    intro a ha
    rw [decide_eq_true_eq, not_le]
    exact hbefore a ha
  rw [List.find?_append, hnone, Option.none_or]
  exact List.find?_cons_of_pos (by rw [decide_eq_true_eq])

/-- Only one candidate is the first of least gain. -/
theorem wins_unique (hc : c.Wins cs) (hw : w.Wins cs) : c = w := by
  have hgain : c.gain = w.gain := (le_of_wins hc w hw.mem).antisymm (le_of_wins hw c hc.mem)
  have hfind := find?_of_wins hc
  rw [hgain, find?_of_wins hw] at hfind
  exact (Option.some.inj hfind).symm

/-- The winner leads outward just if an outward move has no gain to beat and none to equal before
it. -/
theorem outward_iff (hs : s.Coherent ctx) (hgamut : ∀ c ∈ s.palette, InGamut c)
    (hstep : 0 < ctx.settings.step) (hcs : ∀ c ∈ cs, c.Tried ctx s) (hw : w.Wins cs) :
    w.Outward s ↔ ∃ before c after, cs = before ++ c :: after ∧ c.Outward s ∧
      (∀ a ∈ before, 0 < a.gain) ∧ ∀ a ∈ after, 0 ≤ a.gain := by
  -- outward moves have no gain, so that the first of them stands for all
  have hzero : ∀ c ∈ cs, c.Outward s → c.gain = 0 := fun c hc hout =>
    gain_eq_zero hs (hcs c hc) ((set_color_eq_iff hgamut hstep (hcs c hc)).2 hout)
  constructor
  · intro hout
    have hgain := hzero w hw.mem hout
    obtain ⟨before, after, hsplit, hbefore, hafter⟩ := wins_iff.1 hw
    rw [hgain] at hbefore hafter
    exact ⟨before, w, after, hsplit, hout, hbefore, hafter⟩
  · rintro ⟨before, c, after, rfl, hout, hbefore, hafter⟩
    have hgain := hzero c (List.mem_append_right _ List.mem_cons_self) hout
    have hc : c.Wins (before ++ c :: after) := by
      refine wins_iff.2 ⟨before, after, rfl, ?_, ?_⟩
      · rwa [hgain]
      · rwa [hgain]
    exact wins_unique hc hw ▸ hout

end Exact

namespace State

open Exact

variable {ctx : Context ℝ} {s t : State ℝ}

theorem Selects.palette_eq_iff {tried : List (Candidate ℝ)} {winner : Candidate ℝ}
    (h : Selects ctx s t tried winner) (hgamut : ∀ c ∈ s.palette, InGamut c)
    (hstep : 0 < ctx.settings.step) : t.palette = s.palette ↔ winner.Outward s := by
  have hwinner := h.moves winner h.wins.mem
  obtain ⟨color, x, hcolor, hx, hpalette⟩ := h.palette
  obtain ⟨color', x', hcolor', hx', hset⟩ := hwinner.color
  obtain rfl := Option.some.inj (hcolor.symm.trans hcolor')
  obtain rfl := Except.ok.inj (hx.symm.trans hx')
  rw [hpalette, ← hset, set_color_eq_iff hgamut hstep hwinner]

/-- A step leaves a palette in the gamut as it is just if of the permitted moves, in the order of
the scan, one that leads outward comes before all others without a gain, and none has a negative
one. If the step leaves the memories as they are, too, then so do all steps after it. -/
theorem palette_eq_iff_outward (hs : s.Coherent ctx) (hr : s.Remembers)
    (hgamut : ∀ c ∈ s.palette, InGamut c) (hstep : 0 < ctx.settings.step)
    (hpermitted : s.permitted ≠ []) : ∃ t tried winner,
      (tabuStep ctx).apply s = .ok t ∧ Selects ctx s t tried winner ∧
      (t.palette = s.palette ↔ ∃ before c after, tried = before ++ c :: after ∧ c.Outward s ∧
        (∀ a ∈ before, 0 < a.gain) ∧ ∀ a ∈ after, 0 ≤ a.gain) ∧
      (t.palette = s.palette → t.memory = s.memory → ∀ u, Stepped ctx t u →
        u.palette = s.palette ∧ u.memory = s.memory) := by
  obtain ⟨t, tried, winner, ht, h⟩ := exists_selects hs hr hpermitted
  refine ⟨t, tried, winner, ht, h, ?_, fun hp hm u hu => ?_⟩
  · rw [h.palette_eq_iff hgamut hstep, outward_iff hs hgamut hstep h.moves h.wins]
  · exact hs.stands (Or.inr ⟨winner, h.moves winner h.wins.mem, rfl⟩) ht hp hm hu

/-- The first step from black and white under red-blindness. -/
theorem palette_eq_iff_outward_black_white : ∃ (ctx : Context ℝ) (s t : State ℝ)
    (tried : List (Candidate ℝ)) (winner : Candidate ℝ),
    Context.ofLinear [Triple.replicate 0, Triple.replicate 1] .red Settings.standard = .ok ctx ∧
      s.Coherent ctx ∧ s.Remembers ∧ (∀ c ∈ s.palette, InGamut c) ∧ 0 < ctx.settings.step ∧
      s.permitted ≠ [] ∧ (tabuStep ctx).apply s = .ok t ∧ Selects ctx s t tried winner ∧
      (t.palette = s.palette ↔ ∃ before c after, tried = before ++ c :: after ∧ c.Outward s ∧
        (∀ a ∈ before, 0 < a.gain) ∧ ∀ a ∈ after, 0 ≤ a.gain) := by
  obtain ⟨ctx, s, hctx, -, -, hready, hne, -⟩ := exists_black_white
  have hs := hready.opened
  have hstep : 0 < ctx.settings.step := by
    obtain ⟨_, -, hctx⟩ := bind_eq_ok.1 hctx
    obtain rfl := pure_eq_ok.1 hctx
    exact (validate_eq_ok_iff.1 validate_standard).2.2.2.1.1
  have hpermitted := hs.hasMove.permitted_ne_nil hne
  obtain ⟨t, tried, winner, ht, hselects, hiff, -⟩ :=
    palette_eq_iff_outward hs.coherent hs.remembers hs.palette.gamut hstep hpermitted
  exact ⟨ctx, s.opened, t, tried, winner, hctx, hs.coherent, hs.remembers, hs.palette.gamut, hstep,
    hpermitted, ht, hselects, hiff⟩

end State

/-! ### A pair that has fallen together -/

namespace Exact

open State

variable {ctx : Context ℝ} {s t : State ℝ} {c : Candidate ℝ}

/-- A colour of at most a 128th of the light is seen at most half as bright as white. -/
theorem perceived_le_half {c : Triple ℝ} (hc : ∀ k, 0 ≤ c.get k ∧ c.get k ≤ 1 / 128) :
    (read (Eye.blank .perceived) c).perceived ≤ 1 / 2 := by
  have hlow : 0 ≤ brightness c := brightness_nonneg fun k => (hc k).1
  have hhigh : brightness c ≤ 1 / 128 :=
    (brightness_le_highest fun k => (hc k).1).trans (highest_le_iff.2 fun k => (hc k).2)
  have hexponent : (1 / 7 : ℝ) ≤ model.gammaInverse := by
    show (1 / 7 : ℝ) ≤ 1.0 / 2.2
    norm_num
  calc brightness c ^ model.gammaInverse ≤ (1 / 128) ^ model.gammaInverse :=
        Real.rpow_le_rpow hlow hhigh gammaInverse_pos.le
    _ ≤ (1 / 128 : ℝ) ^ (1 / 7 : ℝ) :=
        Real.rpow_le_rpow_of_exponent_ge (by norm_num) (by norm_num) hexponent
    _ = ((1 / 2 : ℝ) ^ (7 : ℝ)) ^ (1 / 7 : ℝ) := by norm_num
    _ = 1 / 2 := by
        rw [← Real.rpow_mul (by norm_num)]
        norm_num

/-- The penalty 1 is no more than what a pair costs at half its distance. -/
theorem one_le_pairCost {settings : Settings ℝ} (hpenalty : settings.collapsePenalty = 1)
    (hthreshold : settings.zeroDistanceThreshold < 1) {projected : ℝ} (h : projected ≤ 1 / 2) :
    1 ≤ pairCost settings projected 1 := by
  have hd : difference settings projected 1 = projected - 1 := by
    rw [difference, if_neg (not_le.2 hthreshold), div_one]
  rw [pairCost, hd, if_neg (by linarith)]
  split_ifs with hlow
  · rw [hpenalty]
  · have hpositive : 0 < 1 + (projected - 1) := by linarith
    have htwo : 2 ≤ 1 / (1 + (projected - 1)) := by
      rw [le_div_iff₀ hpositive]
      linarith
    linarith

/-- Two blacks in a search for black and white without a deficiency, where the penalty is 1. -/
structure Collapsed (ctx : Context ℝ) (s : State ℝ) : Prop where
  deficiency : ctx.deficiency = .none
  step : ctx.settings.step = 1 / 128
  penalty : ctx.settings.collapsePenalty = 1
  threshold : ctx.settings.zeroDistanceThreshold < 1
  originals : ∀ k < 2, ∀ l < 2, l ≠ k → originalAt ctx k l = 1
  coherent : s.Coherent ctx
  palette : s.palette = [Triple.replicate 0, Triple.replicate 0]

namespace Collapsed

variable (h : Collapsed ctx s)

include h

theorem length_projected : s.projected.length = 2 := by
  rw [h.coherent.length_projected, h.palette]
  rfl

theorem eq_black {color : Triple ℝ} (hcolor : color ∈ s.palette) : color = Triple.replicate 0 := by
  rw [h.palette] at hcolor
  simpa using hcolor

theorem gamut : ∀ color ∈ s.palette, InGamut color := fun _ hcolor =>
  h.eq_black hcolor ▸ inGamut_grey (Set.left_mem_Icc.2 zero_le_one)

theorem agrees_black {l : ℕ} (hl : l < 2) :
    (seenAt s.projected l).Agrees (read (Eye.blank .perceived) (Triple.replicate 0)) := by
  have heye := getElem?_seenAt (h.length_projected.symm ▸ hl : l < s.projected.length)
  obtain ⟨color, hcolor, hsees⟩ := exists_right_of_getElem? h.coherent.sees.flip heye
  have hmem := List.mem_of_getElem? hcolor
  have hgamut := h.gamut color hmem
  rw [h.deficiency, ← h.eq_black hmem] at *
  exact Deficiency.Sees.agrees hsees (sees_of_seen (seen_none hgamut) fun k => (hgamut k).1)

theorem errorAt_eq {k : ℕ} (hk : k < 2) (eye : Eye ℝ) : errorAt ctx s.projected k eye =
    pairCost ctx.settings (apart eye (seenAt s.projected (1 - k))) 1 := by
  rw [errorAt_of_length_two h.length_projected hk, cost,
    h.originals k hk (1 - k) (by omega) (by omega)]

/-- No move is worth it. -/
theorem gain_nonneg (hc : c.Tried ctx s) : 0 ≤ c.gain := by
  obtain ⟨color, x, hcolor, hx, hset⟩ := hc.color
  have hplace : c.place < 2 := by
    have hlt := (List.getElem?_eq_some_iff.1 hcolor).1
    rwa [h.palette] at hlt
  have hblack := h.eq_black (List.mem_of_getElem? hcolor)
  have hfaint : ∀ k, 0 ≤ c.color.get k ∧ c.color.get k ≤ 1 / 128 := by
    intro k
    rw [hset, hblack]
    by_cases hk : k = c.channel
    · rw [hk, Triple.get_set_self]
      refine ⟨(moved_mem hx).1, ?_⟩
      rw [hblack, get_replicate, h.step, moved_eq] at hx
      rw [← Except.ok.inj hx]
      refine (min_le_left _ _).trans (max_le ?_ (by norm_num))
      cases c.direction <;> norm_num [Direction.sign]
    · rw [Triple.get_set_of_ne _ _ hk, get_replicate]
      norm_num
  have hgamut : InGamut c.color := fun k => ⟨(hfaint k).1, (hfaint k).2.trans (by norm_num)⟩
  have hsees := sees_of_seen (seen_none hgamut) fun k => (hgamut k).1
  rw [← h.deficiency] at hsees
  obtain ⟨-, hgain⟩ := h.coherent.gain_eq hc hsees
  have hl : 1 - c.place < 2 := by omega
  -- before the move the pair costs the penalty, after it no less
  have htogether : apart (seenAt s.projected c.place) (seenAt s.projected (1 - c.place)) = 0 :=
    apart_of_agrees ((h.agrees_black hplace).trans (h.agrees_black hl).symm)
  have hnear : apart (read (Eye.blank .perceived) c.color) (seenAt s.projected (1 - c.place)) ≤
      1 / 2 := by
    have hblack := (h.agrees_black hl).perceived
    have hzero := perceived_black
    have hle := apart_le (hueOf_mem c.color)
      (h.coherent.hue_mem _ (List.mem_of_getElem? (getElem?_seenAt (h.length_projected ▸ hl))))
      (perceived_nonneg hgamut) (hblack.trans hzero).ge
    rw [hblack, hzero, add_zero] at hle
    exact hle.trans (perceived_le_half hfaint)
  rw [hgain, h.errorAt_eq hplace, h.errorAt_eq hplace, htogether, pairCost_zero h.threshold,
    h.penalty]
  exact sub_nonneg.2 (one_le_pairCost h.penalty h.threshold hnear)

theorem exists_permitted (hdown : s.permits 0 (.red, .down) = true) :
    ∃ rest, s.permitted = (0, .red, .down) :: rest := by
  have hmoves : moves = (.red, .down) :: moves.tail := rfl
  unfold permitted
  rw [h.palette, hmoves]
  show ∃ rest, ([0, 1] : List ℕ).flatMap _ = _
  rw [List.flatMap_cons, List.filter_cons_of_pos hdown, List.map_cons, List.cons_append]
  exact ⟨_, rfl⟩

/-- A step that may push the first channel down does so, and changes nothing but the memory. -/
theorem tabuStep (hr : s.Remembers) (hdown : s.permits 0 (.red, .down) = true)
    (ht : (State.tabuStep ctx).apply s = .ok t) : Collapsed ctx t ∧
      t.permits 0 (.red, .down) = true := by
  obtain ⟨rest, hpermitted⟩ := h.exists_permitted hdown
  obtain ⟨t', tried, winner, ht', hselects⟩ :=
    exists_selects h.coherent hr (hpermitted ▸ List.cons_ne_nil _ _)
  obtain rfl := Except.ok.inj (ht'.symm.trans ht)
  have hstep : 0 < ctx.settings.step := by
    rw [h.step]
    norm_num
  obtain ⟨c, others, rfl, hmove, -⟩ :=
    List.map_eq_cons_iff.1 (hselects.scan.trans hpermitted)
  simp only [Candidate.move, Prod.mk.injEq] at hmove
  obtain ⟨hplace, hk, hd⟩ := hmove
  have hout : c.Outward s := by
    rw [Candidate.Outward, hplace, hk, hd, h.palette]
    rfl
  have hgain : c.gain = 0 := gain_eq_zero h.coherent (hselects.moves c List.mem_cons_self)
    ((set_color_eq_iff h.gamut hstep (hselects.moves c List.mem_cons_self)).2 hout)
  have hwins : c.Wins (c :: others) := by
    refine wins_iff.2 ⟨[], others, rfl, List.forall_mem_nil _, fun a ha => ?_⟩
    rw [hgain]
    exact h.gain_nonneg (hselects.moves a (List.mem_cons_of_mem _ ha))
  obtain rfl := wins_unique hwins hselects.wins
  have hpalette := (hselects.palette_eq_iff h.gamut hstep).2 hout
  refine ⟨⟨h.deficiency, h.step, h.penalty, h.threshold, h.originals, hselects.coherent,
    hpalette.trans h.palette⟩, ?_⟩
  obtain ⟨hlt, hmemory⟩ := hselects.memory
  rw [hplace] at hlt
  rw [permits, hmemory, hplace, hk, hd, List.getElem?_set_self hlt]
  rfl

end Collapsed

/-- The search never leaves the two blacks. -/
theorem collapsed_of_after (hs : Ready ctx s) (h : Collapsed ctx s) {n : ℕ}
    (ht : after ctx s n = .ok t) : Collapsed ctx t ∧ t.permits 0 (.red, .down) = true := by
  induction n generalizing t with
  | zero =>
    obtain rfl := Except.ok.inj ht
    refine ⟨⟨h.deficiency, h.step, h.penalty, h.threshold, h.originals, hs.opened.coherent,
      h.palette⟩, ?_⟩
    have hmemory : s.opened.memory[0]? = some Memory.free := by
      refine opened_memory ?_
      rw [h.palette]
      exact two_pos
    rw [permits, hmemory]
    rfl
  | succ n ih =>
    obtain ⟨v, hv, hstep⟩ := bind_eq_ok.1 ht
    obtain ⟨hcollapsed, hdown⟩ := ih hv
    obtain ⟨v', hv', hsound⟩ := exists_after hs n
    obtain rfl := Except.ok.inj (hv'.symm.trans hv)
    exact hcollapsed.tabuStep hsound.remembers hdown hstep

/-- A search for black and white can be started from two blacks. -/
theorem exists_collapsed : ∃ (ctx : Context ℝ) (s : State ℝ),
    Context.ofLinear [Triple.replicate 0, Triple.replicate 1] .none
        { Settings.standard with collapsePenalty := (1 : ℝ) } = .ok ctx ∧
      ctx.settings.validate = .ok () ∧
      (prepare ctx [Triple.replicate 0, Triple.replicate 0] 0).apply
        (State.idle ctx.deficiency .tabuSum) = .ok s ∧
      (∃ e, s.bestError = some e ∧ 1 ≤ e) ∧ Ready ctx s ∧ Collapsed ctx s := by
  have hzero : (0 : ℝ) ∈ Set.Icc (0 : ℝ) 1 := Set.left_mem_Icc.2 zero_le_one
  obtain ⟨ctx, s, hctx, hs, hregular, ho, hd, hset, hready, hpalette⟩ :=
    exists_prepare_greys (show 0 ≤ ({ Settings.standard with collapsePenalty := 1 } :
      Settings ℝ).zeroDistanceThreshold from standard_threshold_nonneg) hzero hzero
  have hfits : Fits ctx [Triple.replicate 0, Triple.replicate 0] := hpalette ▸ hready.palette
  have hpenalty : ctx.settings.collapsePenalty = 1 := by rw [hset]
  have hcollapsed : Collapsed ctx s := by
    refine ⟨hd, ?_, hpenalty, ?_, fun k hk l hl hne =>
      originalAt_of_black_white hregular.toSurveyed ho hk hl hne, hready.coherent, hpalette⟩
    · rw [hset]
      norm_num [Settings.standard]
    · rw [hset]
      show (Settings.standard : Settings ℝ).zeroDistanceThreshold < 1
      rw [standard_threshold]
      norm_num
  have hvalid : ctx.settings.validate = .ok () := by
    obtain ⟨h₁, h₂, h₃, h₄, -⟩ := validate_eq_ok_iff.1 validate_standard
    rw [hset]
    exact validate_eq_ok_iff.2 ⟨h₁, h₂, h₃, h₄, one_pos⟩
  obtain ⟨e, hbest, he⟩ := paletteError_of_prepare (served_idle .tabuSum) hs
  obtain ⟨e', he', hle⟩ := paletteError_of_alike hregular hfits (k := 0) (l := 1) rfl rfl
    one_ne_zero rfl (hcollapsed.originals 0 two_pos 1 one_lt_two one_ne_zero ▸ hcollapsed.threshold)
    (hpenalty ▸ zero_le_one)
  obtain rfl := Except.ok.inj (he.symm.trans he')
  exact ⟨ctx, s, hctx, hvalid, hs, ⟨e, hbest, hpenalty ▸ hle⟩, hready, hcollapsed⟩

end Exact

namespace State

open Exact

/-- Where a pair that has fallen together costs no more than one at half its distance, a search
from two blacks never leaves them: every step pushes the first channel down. -/
theorem palette_eq_of_blacks : ∃ (ctx : Context ℝ) (s : State ℝ),
    Context.ofLinear [Triple.replicate 0, Triple.replicate 1] .none
        { Settings.standard with collapsePenalty := (1 : ℝ) } = .ok ctx ∧
      ctx.settings.validate = .ok () ∧
      (prepare ctx [Triple.replicate 0, Triple.replicate 0] 0).apply
        (State.idle ctx.deficiency .tabuSum) = .ok s ∧
      (∃ e, s.bestError = some e ∧ 1 ≤ e) ∧
      ∀ n, ∃ v w, after ctx s n = .ok v ∧ v.Coherent ctx ∧ v.palette ≠ [] ∧
        (∀ c ∈ v.palette, InGamut c) ∧ (tabuStep ctx).apply v = .ok w ∧ w.palette = v.palette := by
  obtain ⟨ctx, s, hctx, hvalid, hs, herror, hready, hcollapsed⟩ := exists_collapsed
  refine ⟨ctx, s, hctx, hvalid, hs, herror, fun n => ?_⟩
  obtain ⟨v, hv, -⟩ := exists_after hready n
  obtain ⟨w, hw, -⟩ := exists_after hready (n + 1)
  obtain ⟨v', hv', hstep⟩ := bind_eq_ok.1 hw
  obtain rfl := Except.ok.inj (hv'.symm.trans hv)
  obtain ⟨hcv, -⟩ := collapsed_of_after hready hcollapsed hv
  obtain ⟨hcw, -⟩ := collapsed_of_after hready hcollapsed hw
  have hne : v'.palette ≠ [] := hcv.palette ▸ List.cons_ne_nil _ _
  exact ⟨v', w, hv, hcv.coherent, hne, hcv.gamut, hstep, hcw.palette.trans hcv.palette.symm⟩

end State

end

end Dichromat
