import Dichromat.Proofs.Exact.Phase

/-!
# A step is the steepest descent

A step weighs every move by the error of the colour that it moves. As distances are symmetric, in
exact arithmetic the error of the whole palette changes by twice as much
(`State.Coherent.totalOf_set`), so that the step is the best one for the palette too
(`State.tabuStep_descends`).
-/

noncomputable section

namespace Dichromat

open Exact

/-! ### Sums over pairs -/

/-- If one row of a symmetric table changes, and with it one column, the sum over all pairs changes
by twice as much as the sum over the row. -/
theorem sum_pairs_change {n m : ℕ} (hm : m < n) (E E' : ℕ → ℕ → ℝ)
    (hE : ∀ k < n, E k m = E m k) (hE' : ∀ k < n, E' k m = E' m k)
    (h : ∀ k l, k ≠ m → l ≠ m → E' k l = E k l) :
    ∑ k ∈ Finset.range n, ∑ l ∈ (Finset.range n).erase k, E' k l =
      (∑ k ∈ Finset.range n, ∑ l ∈ (Finset.range n).erase k, E k l) +
        2 * (∑ l ∈ (Finset.range n).erase m, E' m l - ∑ l ∈ (Finset.range n).erase m, E m l) := by
  have hmem : m ∈ Finset.range n := Finset.mem_range.2 hm
  -- outside the row only the entry of the column changes
  have hrow : ∀ k ∈ (Finset.range n).erase m,
      ∑ l ∈ (Finset.range n).erase k, E' k l =
        (∑ l ∈ (Finset.range n).erase k, E k l) + (E' m k - E m k) := by
    intro k hk
    obtain ⟨hne, hk⟩ := Finset.mem_erase.1 hk
    have hmk : m ∈ (Finset.range n).erase k := Finset.mem_erase.2 ⟨hne.symm, hmem⟩
    rw [← Finset.add_sum_erase _ (E' k) hmk, ← Finset.add_sum_erase _ (E k) hmk,
      Finset.sum_congr rfl fun l hl => h k l hne (Finset.ne_of_mem_erase hl),
      hE' k (Finset.mem_range.1 hk), hE k (Finset.mem_range.1 hk)]
    ring
  rw [← Finset.add_sum_erase _ _ hmem, Finset.sum_congr rfl hrow, Finset.sum_add_distrib,
    Finset.sum_sub_distrib,
    ← Finset.add_sum_erase _ (fun k => ∑ l ∈ (Finset.range n).erase k, E k l) hmem]
  ring

/-! ### The error after a move -/

namespace State

variable {ctx : Context ℝ} {s t : State ℝ}

theorem seenAt_set_self {xs : List (Eye ℝ)} {k : ℕ} (hk : k < xs.length) (eye : Eye ℝ) :
    seenAt (xs.set k eye) k = eye :=
  seenAt_of_getElem? (List.getElem?_set_self hk)

theorem seenAt_set_of_ne {xs : List (Eye ℝ)} {k l : ℕ} (h : l ≠ k) (eye : Eye ℝ) :
    seenAt (xs.set k eye) l = seenAt xs l := by
  rw [seenAt, seenAt, List.getD_eq_getElem?_getD, List.getD_eq_getElem?_getD,
    List.getElem?_set_ne h.symm]

theorem Coherent.length_le_size (hs : s.Coherent ctx)
    (hd : distanceMatrix ctx.original = .ok ctx.distances) : s.projected.length ≤ ctx.size := by
  rw [← distances_length hd]
  by_contra hlt
  rw [not_le] at hlt
  obtain ⟨row, hrow, -⟩ := measures hs _ hlt
  exact absurd (List.getElem?_eq_some_iff.1 hrow).1 (lt_irrefl _)

theorem Coherent.hue_mem (hs : s.Coherent ctx) : ∀ e ∈ s.projected, e.hue ∈ Set.Icc (0 : ℝ) 1 :=
  hue_mem_of_sees hs.sees

/-- The gain of a candidate as a difference of sums. -/
theorem Coherent.gain_eq (hs : s.Coherent ctx) {c : Candidate ℝ} (hc : c.Tried ctx s) {eye : Eye ℝ}
    (heye : ctx.deficiency.Sees c.color eye) :
    c.place < s.projected.length ∧ c.gain = errorAt ctx s.projected c.place eye -
      errorAt ctx s.projected c.place (seenAt s.projected c.place) := by
  have hperceived := hs.perceived
  obtain ⟨color, _, hcolor, -⟩ := hc.color
  have hplace : c.place < s.projected.length :=
    hs.length_projected ▸ (List.getElem?_eq_some_iff.1 hcolor).1
  obtain ⟨seen, hseen, ha⟩ := heye
  have hafter : c.error = errorAt ctx s.projected c.place eye :=
    Except.ok.inj ((hc.colorError_eq ⟨seen, hseen, ha⟩ hperceived).symm.trans
      (colorError_eq (measures hs) hplace ha.left hperceived))
  obtain ⟨before, hb, hg⟩ := hc.gain
  have hx := getElem?_seenAt hplace
  have hbefore : before = errorAt ctx s.projected c.place (seenAt s.projected c.place) :=
    Except.ok.inj (((colorErrors_eq_ok_iff.1 hs.errors).2 _ _ _ hx hb).symm.trans
      (colorError_eq (measures hs) hplace (hperceived _ (List.mem_of_getElem? hx)) hperceived))
  refine ⟨hplace, ?_⟩
  rw [← hafter, ← hbefore]
  exact (Except.ok.inj hg).symm

/-- The move of a candidate changes the error of the palette by twice its gain. -/
theorem Coherent.totalOf_set (hs : s.Coherent ctx)
    (hd : distanceMatrix ctx.original = .ok ctx.distances) {c : Candidate ℝ} (hc : c.Tried ctx s)
    {eye : Eye ℝ} (heye : ctx.deficiency.Sees c.color eye) :
    totalOf ctx (s.projected.set c.place eye) = totalOf ctx s.projected + 2 * c.gain := by
  obtain ⟨hplace, hgain⟩ := hs.gain_eq hc heye
  have hlen : (s.projected.set c.place eye).length = s.projected.length := List.length_set ..
  have hle := hs.length_le_size hd
  have hhue : ∀ e ∈ s.projected.set c.place eye, e.hue ∈ Set.Icc (0 : ℝ) 1 := by
    intro e he
    rcases List.mem_or_eq_of_mem_set he with he | rfl
    · exact hs.hue_mem e he
    · exact hue_of_sees heye
  have hcost {k l : ℕ} (x : Eye ℝ) (hl : l ≠ c.place) :
      cost ctx (s.projected.set c.place eye) k x l = cost ctx s.projected k x l := by
    rw [cost, cost, seenAt_set_of_ne hl]
  have hself : seenAt (s.projected.set c.place eye) c.place = eye := seenAt_set_self hplace eye
  have hchange := sum_pairs_change hplace
    (fun k l => cost ctx s.projected k (seenAt s.projected k) l)
    (fun k l => cost ctx (s.projected.set c.place eye) k
      (seenAt (s.projected.set c.place eye) k) l)
    (fun k hk => cost_comm hd hle hs.hue_mem hk hplace)
    (fun k hk => cost_comm hd (hlen ▸ hle) hhue (hlen.symm ▸ hk) (hlen.symm ▸ hplace))
    (fun k l hk hl => by rw [hcost _ hl, seenAt_set_of_ne hk])
  have hrow : ∑ l ∈ (Finset.range s.projected.length).erase c.place,
      cost ctx (s.projected.set c.place eye) c.place
        (seenAt (s.projected.set c.place eye) c.place) l =
      errorAt ctx s.projected c.place eye := by
    rw [hself, errorAt]
    exact Finset.sum_congr rfl fun l hl => hcost _ (Finset.ne_of_mem_erase hl)
  rw [hrow] at hchange
  rw [hgain]
  unfold totalOf
  simp only [errorAt, hlen] at hchange ⊢
  exact hchange

/-! ### The step -/

theorem exists_tried (hs : s.Coherent ctx) (hr : s.Remembers) {place : ℕ} {m : Memory}
    (hm : s.memory[place]? = some m) {k : Channel} {d : Direction}
    (hk : allows m k d = .ok true) :
    ∃ c : Candidate ℝ, c.Tried ctx s ∧ c.place = place ∧ c.channel = k ∧ c.direction = d := by
  have hplace : place < s.palette.length := hr.length ▸ (List.getElem?_eq_some_iff.1 hm).1
  have hcolor := List.getElem?_eq_getElem hplace
  obtain ⟨c, q, hc, -⟩ := exists_candidate hs hs.projector hplace s.palette[place] k d
  exact ⟨c, (tried_of_candidate hs.projector hcolor hm hk hc).2⟩

/-- Applying a candidate gives a coherent state, with the error of the palette changed by twice the
gain. -/
theorem Coherent.applyChoice_total (hs : s.Coherent ctx)
    (hd : distanceMatrix ctx.original = .ok ctx.distances) {c : Candidate ℝ} (hc : c.Tried ctx s)
    (h : (State.applyChoice ctx (.ofCandidate c)).apply s = .ok t) :
    t.palette = s.palette.set c.place c.color ∧
      Mode.sum.aggregate t.errors = .ok (totalOf ctx s.projected + 2 * c.gain) := by
  have ht := hs.applyChoice hc h
  obtain ⟨q, es, hq, hes, rfl⟩ := (hs.applyChoice_eq_ok hc).1 h
  refine ⟨rfl, ?_⟩
  rw [← hs.totalOf_set hd hc (Projector.serves_project hs.projector hq).2]
  exact aggregate_sum_eq ht.perceived hes

/-- A step changes the error of the palette by twice the gain of its move, and no other allowed move
would have led to a smaller error. -/
theorem tabuStep_descends (hd : distanceMatrix ctx.original = .ok ctx.distances)
    (hs : s.Coherent ctx) (hr : s.Remembers)
    (hmove : ∃ m ∈ s.memory, ∃ k d, allows m k d = .ok true) :
    ∃ (before : ℝ) (winner : Candidate ℝ) (t : State ℝ),
      Mode.sum.aggregate s.errors = .ok before ∧ winner.Tried ctx s ∧
      (tabuStep ctx).apply s = .ok t ∧ t.Coherent ctx ∧
      t.palette = s.palette.set winner.place winner.color ∧
      Mode.sum.aggregate t.errors = .ok (before + 2 * winner.gain) ∧
      ∀ place m k d, s.memory[place]? = some m → allows m k d = .ok true →
        ∃ (c : Candidate ℝ) (after : ℝ), c.Tried ctx s ∧
          c.place = place ∧ c.channel = k ∧ c.direction = d ∧
          paletteError ctx (s.palette.set place c.color) .sum = .ok after ∧
          before + 2 * winner.gain ≤ after := by
  obtain ⟨m, hm, k, d, hk⟩ := hmove
  obtain ⟨place, hplace⟩ := List.getElem?_of_mem hm
  obtain ⟨first, hfirst⟩ : ∃ first, s.palette.head? = some first := by
    have hlen : 0 < s.palette.length :=
      (Nat.zero_le _).trans_lt (hr.length ▸ (List.getElem?_eq_some_iff.1 hplace).1)
    exact ⟨_, List.head?_eq_some_head (List.ne_nil_of_length_pos hlen)⟩
  obtain ⟨tried, q, htried⟩ := exists_candidates hs hr
  obtain ⟨hq, hmem⟩ := mem_candidates_iff hs.projector hs.perceived htried
  obtain ⟨c, hc, -⟩ := exists_tried hs hr hplace hk
  obtain ⟨winner, hwinner, hbest, hleast⟩ :=
    exists_firstLeast (List.ne_nil_of_mem ((hmem c).2 hc))
  have hw := (hmem winner).1 hwinner
  have hs' := hs.withProjector hq
  have hw' : winner.Tried ctx { s with projector := q } := hw.of_eq rfl
  obtain ⟨t, ht⟩ := exists_applyChoice hs' hw'
  obtain ⟨hpalette, htotal⟩ := hs'.applyChoice_total hd hw' ht
  refine ⟨totalOf ctx s.projected, winner, t,
    aggregate_sum_eq hs.perceived hs.errors, hw,
    (tabuStep_eq_ok hfirst).2 ⟨tried, q, some winner, htried, hbest, ht⟩,
    hs'.applyChoice hw' ht, hpalette, htotal, ?_⟩
  intro place m k d hplace hk
  obtain ⟨c, hc, rfl, hch, hdir⟩ := exists_tried hs hr hplace hk
  obtain ⟨u, hu⟩ := exists_applyChoice hs hc
  obtain ⟨hpalette, htotal⟩ := hs.applyChoice_total hd hc hu
  refine ⟨c, totalOf ctx s.projected + 2 * c.gain, hc, rfl, hch, hdir, ?_, ?_⟩
  · exact hpalette ▸ ((hs.applyChoice hc hu).paletteError_eq .sum).trans htotal
  · have := hleast c ((hmem c).2 hc)
    linarith

/-- The first step from black and white under red-blindness. -/
theorem tabuStep_descends_black_white :
    ∃ (ctx : Context ℝ) (s : State ℝ),
      Context.ofLinear [Triple.replicate 0, Triple.replicate 1] .red Settings.standard = .ok ctx ∧
      s.Coherent ctx ∧ s.Remembers ∧ (∃ m ∈ s.memory, ∃ k d, allows m k d = .ok true) ∧
      ∃ (before : ℝ) (winner : Candidate ℝ) (t : State ℝ),
        Mode.sum.aggregate s.errors = .ok before ∧ winner.Tried ctx s ∧
        (tabuStep ctx).apply s = .ok t ∧ t.Coherent ctx ∧
        t.palette = s.palette.set winner.place winner.color ∧
        Mode.sum.aggregate t.errors = .ok (before + 2 * winner.gain) ∧
        ∀ place m k d, s.memory[place]? = some m → allows m k d = .ok true →
          ∃ (c : Candidate ℝ) (after : ℝ), c.Tried ctx s ∧
            c.place = place ∧ c.channel = k ∧ c.direction = d ∧
            paletteError ctx (s.palette.set place c.color) .sum = .ok after ∧
            before + 2 * winner.gain ≤ after := by
  obtain ⟨ctx, s, hctx, -, hregular, hready, hne, -⟩ := exists_black_white
  have hopened := hready.opened
  have hmove : ∃ m ∈ s.opened.memory, ∃ k d, allows m k d = .ok true := by
    obtain ⟨color, hcolor⟩ := List.exists_mem_of_ne_nil _ hne
    exact ⟨Memory.free, List.mem_map.2 ⟨color, hcolor, rfl⟩, .red, .up, rfl⟩
  exact ⟨ctx, s.opened, hctx, hopened.coherent, hopened.remembers, hmove,
    tabuStep_descends hregular.distances hopened.coherent hopened.remembers hmove⟩

end State

end Dichromat

end
