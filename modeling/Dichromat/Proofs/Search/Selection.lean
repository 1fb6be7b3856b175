import Dichromat.Proofs.Search.Descent
import Dichromat.Proofs.Search.Tracking

/-!
# Which move a step makes

A step tries the moves that the memories of its state permit, in the order of the scan
(`State.permitted`), and makes the first one of least gain (`Candidate.Wins`). It changes one
channel of one colour and that colour's memory; what is not computed from the palette stays as it
was (`State.tabuStep_selects`).
-/

namespace Dichromat

variable {α : Type} [ColorArith α]

/-! ### The first of least gain -/

/-- Numbers in ranks, with those that lie below infinity below the others. -/
structure RankedToInfinity (P : α → Prop) : Prop extends Ranked P where
  lt_of_bounded {a b : α} (ha : P a) (hb : P b) (h : Arith.bounded a = .ok true)
    (h' : Arith.bounded b = .ok false) : Comparable.lt a b = .ok true

theorem Exact.rankedToInfinity (P : ℝ → Prop) : RankedToInfinity P where
  toRanked := ranked P
  lt_of_bounded _ _ _ h' := nomatch h'

namespace Candidate

/-- The candidates before the first one of least gain have higher gains, those after it none that
is lower. -/
def Wins (c : Candidate α) (cs : List (Candidate α)) : Prop :=
  ∃ before after, cs = before ++ c :: after ∧
    (∀ a ∈ before, Comparable.lt c.gain a.gain = .ok true) ∧
    ∀ a ∈ after, Comparable.lt a.gain c.gain = .ok false

section Wins

variable {cs : List (Candidate α)} {c x : Candidate α}

theorem Wins.mem (h : c.Wins cs) : c ∈ cs := by
  obtain ⟨before, after, rfl, -, -⟩ := h
  exact List.mem_append_right _ List.mem_cons_self

/-- One more candidate that is not below the winner. -/
theorem Wins.kept (h : c.Wins cs) (hnot : Comparable.lt x.gain c.gain = .ok false) :
    c.Wins (cs ++ [x]) := by
  obtain ⟨before, after, rfl, hbefore, hafter⟩ := h
  refine ⟨before, after ++ [x], ?_, hbefore, fun a ha => ?_⟩
  · rw [List.append_assoc, List.cons_append]
  · rcases List.mem_append.1 ha with ha | ha
    · exact hafter a ha
    · rwa [List.mem_singleton.1 ha]

/-- One more candidate that is below all others wins. -/
theorem wins_concat (h : ∀ a ∈ cs, Comparable.lt x.gain a.gain = .ok true) : x.Wins (cs ++ [x]) :=
  ⟨cs, [], rfl, h, nofun⟩

/-- One more candidate that is below the winner is below all that the winner was not above. -/
theorem Wins.improved {P : α → Prop} (hP : Ranked P) (hall : ∀ a ∈ cs, P a.gain) (hx : P x.gain)
    (h : c.Wins cs) (hlt : Comparable.lt x.gain c.gain = .ok true) : x.Wins (cs ++ [x]) := by
  have hc := hall c h.mem
  obtain ⟨before, after, rfl, hbefore, hafter⟩ := h
  refine wins_concat fun a ha => ?_
  have hnot : Comparable.lt a.gain c.gain = .ok false := by
    rcases List.mem_append.1 ha with hb | hb
    · exact hP.asymm hc (hall a ha) (hbefore a hb)
    · rcases List.mem_cons.1 hb with rfl | hb
      · exact hP.irrefl hc
      · exact hafter a hb
  exact hP.lt_of_lt_of_not_lt hx hc (hall a ha) hlt hnot

/-- What the scan for the least gain holds after some candidates. -/
def Held (seen : List (Candidate α)) : Option (Candidate α) → Prop
  | none => ∀ a ∈ seen, Arith.bounded a.gain = .ok false
  | some c => c.Wins seen

theorem held_of_foldlM {P : α → Prop} (hP : RankedToInfinity P) {seen : List (Candidate α)}
    {best next : Option (Candidate α)} (hall : ∀ a ∈ seen ++ cs, P a.gain) (hbest : Held seen best)
    (h : cs.foldlM better best = .ok next) : Held (seen ++ cs) next := by
  induction cs generalizing seen best with
  | nil =>
    rw [List.append_nil]
    exact pure_eq_ok.1 h ▸ hbest
  | cons x cs ih =>
    rw [List.foldlM_cons, bind_eq_ok] at h
    obtain ⟨mid, hmid, h⟩ := h
    have hx : P x.gain := hall x (List.mem_append_right _ List.mem_cons_self)
    have hseen : ∀ a ∈ seen, P a.gain := fun a ha => hall a (List.mem_append_left _ ha)
    rw [List.append_cons] at hall ⊢
    refine ih hall ?_ h
    cases best with
    | none =>
      -- all gains so far are infinite, and the next one comes to be held if it is not
      rcases better_eq_ok.1 hmid with ⟨hb, rfl⟩ | ⟨hb, rfl⟩
      · exact wins_concat fun a ha => hP.lt_of_bounded hx (hseen a ha) hb (hbest a ha)
      · intro a ha
        rcases List.mem_append.1 ha with ha | ha
        · exact hbest a ha
        · rwa [List.mem_singleton.1 ha]
    | some c =>
      rcases better_eq_ok.1 hmid with ⟨hlt, rfl⟩ | ⟨hnot, rfl⟩
      · exact hbest.improved hP.toRanked hseen hx hlt
      · exact hbest.kept hnot

theorem wins_of_firstLeast {P : α → Prop} (hP : RankedToInfinity P) (hall : ∀ a ∈ cs, P a.gain)
    (h : firstLeast cs = .ok (some c)) : c.Wins cs := by
  have hstart : Held ([] : List (Candidate α)) none := fun _ h => nomatch h
  exact held_of_foldlM hP (fun a ha => hall a ha) hstart h

end Wins

end Candidate

namespace State

variable {ctx : Context α} {s t : State α}

/-! ### The step -/

/-- The gains of the allowed moves can be compared with each other and with infinity. -/
def GainsComparable (ctx : Context α) (s : State α) : Prop :=
  RankedToInfinity fun g => ∃ c : Candidate α, c.Tried ctx s ∧ c.gain = g

/-- What a step does that makes one of the moves that have been tried. -/
structure Selects (ctx : Context α) (s t : State α) (tried : List (Candidate α))
    (winner : Candidate α) : Prop where
  /-- The scan goes through the permitted moves. -/
  scan : tried.map Candidate.move = s.permitted
  moves : ∀ c ∈ tried, c.Tried ctx s
  wins : winner.Wins tried
  palette : ∃ color x, s.palette[winner.place]? = some color ∧
    moved ctx.settings.step (color.get winner.channel) winner.direction = .ok x ∧
    t.palette = s.palette.set winner.place (color.set winner.channel x)
  memory : winner.place < s.memory.length ∧ t.memory =
    s.memory.set winner.place (Memory.free.set winner.channel.index (-winner.direction.sign))
  /-- Nothing else changes but what is computed from the palette. -/
  frame : t = s.withWork t
  coherent : t.Coherent ctx

theorem Coherent.selects (hs : s.Coherent ctx) (hne : s.palette ≠ [])
    (hgains : s.GainsComparable ctx) (hm : s.HasMove ctx)
    (h : (State.tabuStep ctx).apply s = .ok t) : ∃ tried winner, Selects ctx s t tried winner := by
  have hcoherent := hs.tabuStep hm h
  obtain ⟨hnil, -⟩ | ⟨tried, q, winner, hq, hmem, hscan, hbest, happly⟩ := hs.tabuStep_cases hm h
  · exact absurd hnil hne
  have hwinner := (hmem winner).1 (Candidate.firstLeast_mem hbest)
  have hwins := Candidate.wins_of_firstLeast hgains (fun c hc => ⟨c, (hmem c).1 hc, rfl⟩) hbest
  obtain ⟨m, hm, -⟩ := hwinner.allowed
  obtain ⟨color, x, hcolor, hx, hset⟩ := hwinner.color
  obtain ⟨_, _, -, -, rfl⟩ := ((hs.withProjector hq).applyChoice_eq_ok (hwinner.of_eq rfl)).1 happly
  refine ⟨tried, winner, hscan, fun c hc => (hmem c).1 hc, hwins, ⟨color, x, hcolor, hx, ?_⟩,
    ⟨(List.getElem?_eq_some_iff.1 hm).1, rfl⟩, rfl, hcoherent⟩
  rw [← hset]

theorem HasMove.permitted_ne_nil (hm : s.HasMove ctx) (hne : s.palette ≠ []) :
    s.permitted ≠ [] := by
  rcases hm with hnil | ⟨c, hc, -⟩
  · exact absurd hnil hne
  · exact List.ne_nil_of_mem (move_mem_permitted hc)

omit [ColorArith α] in
theorem allows_of_permits {place : Nat} {k : Channel} {d : Direction} (hr : s.Remembers)
    (hplace : place < s.palette.length) (h : s.permits place (k, d) = true) :
    ∃ m, s.memory[place]? = some m ∧ allows m k d = .ok true := by
  have hplace' : place < s.memory.length := hr.length ▸ hplace
  have hm := List.getElem?_eq_getElem hplace'
  obtain ⟨allowed, hallowed⟩ := Exact.exists_allowed (hr.entries _ (List.getElem_mem hplace')) k d
  exact ⟨_, hm, hallowed.trans (congrArg _ ((permits_of_allows hm hallowed).symm.trans h))⟩

/-- In exact arithmetic a step goes through whenever a move is permitted. -/
theorem exists_selects {ctx : Context ℝ} {s : State ℝ} (hs : s.Coherent ctx) (hr : s.Remembers)
    (hpermitted : s.permitted ≠ []) :
    ∃ t tried winner, (tabuStep ctx).apply s = .ok t ∧ Selects ctx s t tried winner := by
  obtain ⟨move, hmove⟩ := List.exists_mem_of_ne_nil _ hpermitted
  obtain ⟨place, hplace, hmove⟩ := List.mem_flatMap.1 hmove
  obtain ⟨⟨k, d⟩, hx, rfl⟩ := List.mem_map.1 hmove
  have hlt : place < s.palette.length := List.mem_range.1 hplace
  obtain ⟨m, hm, hallowed⟩ := allows_of_permits hr hlt (List.mem_filter.1 hx).2
  obtain ⟨c, hc, -⟩ := exists_tried hs hr hm hallowed
  obtain ⟨t, ht⟩ := Exact.exists_tabuStep hs hr hc
  obtain ⟨tried, winner, h⟩ := hs.selects (List.ne_nil_of_length_pos (Nat.zero_lt_of_lt hlt))
    (Exact.rankedToInfinity _) (Or.inr ⟨c, hc, rfl⟩) ht
  exact ⟨t, tried, winner, ht, h⟩

/-- A step makes the first permitted move of least gain: it moves that channel within its range,
leaves the colour's memory with the opposite direction alone, and touches nothing else that is not
computed from the palette. In exact arithmetic every gain can be compared and a step goes through
whenever a move is permitted. -/
theorem tabuStep_selects :
    (∀ (α : Type) [ColorArith α] (ctx : Context α) (s t : State α), s.Coherent ctx →
      s.palette ≠ [] → s.GainsComparable ctx → s.HasMove ctx → (tabuStep ctx).apply s = .ok t →
      ∃ tried winner, Selects ctx s t tried winner) ∧
    ∀ (ctx : Context ℝ) (s : State ℝ), s.Coherent ctx → s.Remembers → s.permitted ≠ [] →
      ∃ t tried winner, (tabuStep ctx).apply s = .ok t ∧ Selects ctx s t tried winner :=
  ⟨fun _ _ _ _ _ hs hne hgains hm h => hs.selects hne hgains hm h,
    fun _ _ hs hr hpermitted => exists_selects hs hr hpermitted⟩

/-- The first step from black and white under red-blindness. -/
theorem tabuStep_selects_black_white : ∃ (ctx : Context ℝ) (s t : State ℝ),
    Context.ofLinear [Triple.replicate 0, Triple.replicate 1] .red Settings.standard = .ok ctx ∧
      s.Coherent ctx ∧ s.palette ≠ [] ∧ s.GainsComparable ctx ∧ s.HasMove ctx ∧ s.Remembers ∧
      s.permitted ≠ [] ∧ (tabuStep ctx).apply s = .ok t ∧
      ∃ tried winner, Selects ctx s t tried winner := by
  obtain ⟨ctx, s, hctx, -, -, hready, hne, -⟩ := Exact.exists_black_white
  have hs := hready.opened
  have hgains : s.opened.GainsComparable ctx := Exact.rankedToInfinity _
  have hpermitted := hs.hasMove.permitted_ne_nil hne
  obtain ⟨t, _, _, ht, -⟩ := tabuStep_selects.2 ctx s.opened hs.coherent hs.remembers hpermitted
  exact ⟨ctx, s.opened, t, hctx, hs.coherent, hne, hgains, hs.hasMove, hs.remembers, hpermitted, ht,
    tabuStep_selects.1 ℝ ctx s.opened t hs.coherent hne hgains hs.hasMove ht⟩

end State

end Dichromat
