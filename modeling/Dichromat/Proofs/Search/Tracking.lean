import Dichromat.Proofs.Exact.Phase
import Dichromat.Proofs.Search.Best
import Dichromat.Proofs.Search.Moves
import Dichromat.Proofs.Search.Serving

/-!
# What a Tabu search remembers of its moves

Where comparisons rank the errors (`Ranked`), a Tabu search from a prepared state ends with the
least of the errors that its palette has had before one of its moves, with the first number of moves
after which it had it, and with the palette of that time (`State.exploreTabu_tracks`). Moves are
counted and palettes are taken from the moves alone (`State.after`).
-/

namespace Dichromat

variable {α : Type} [ColorArith α]

/-! ### Errors in ranks -/

/-- Numbers that comparisons never refuse, and rank: of two that differ in rank, any third one is
above the lower or below the higher one. -/
structure Ranked (P : α → Prop) : Prop where
  lt_ok {a b : α} (ha : P a) (hb : P b) : ∃ r, Comparable.lt a b = .ok r
  asymm {a b : α} (ha : P a) (hb : P b) (h : Comparable.lt a b = .ok true) :
    Comparable.lt b a = .ok false
  cotrans {a b c : α} (ha : P a) (hb : P b) (hc : P c) (h : Comparable.lt a b = .ok true) :
    Comparable.lt a c = .ok true ∨ Comparable.lt c b = .ok true

namespace Ranked

variable {P : α → Prop} (hP : Ranked P) {a b c : α}

include hP

theorem irrefl (ha : P a) : Comparable.lt a a = .ok false := by
  obtain ⟨r, hr⟩ := hP.lt_ok ha ha
  cases r with
  | false => exact hr
  | true => exact hP.asymm ha ha hr

/-- What is below a value is below all that are not. -/
theorem lt_of_lt_of_not_lt (ha : P a) (hb : P b) (hc : P c) (h : Comparable.lt a b = .ok true)
    (h' : Comparable.lt c b = .ok false) : Comparable.lt a c = .ok true := by
  rcases hP.cotrans ha hb hc h with hac | hcb
  · exact hac
  · exact nomatch h'.symm.trans hcb

end Ranked

theorem Exact.ranked (P : ℝ → Prop) : Ranked P where
  lt_ok _ _ := ⟨_, rfl⟩
  asymm _ _ h := by
    rw [lt_eq, Except.ok.injEq, decide_eq_true_eq] at h
    rw [lt_eq, decide_eq_false h.asymm]
  cotrans {a b c} _ _ _ h := by
    simp only [lt_eq, Except.ok.injEq, decide_eq_true_eq] at *
    rcases lt_or_ge a c with hac | hca
    · exact Or.inl hac
    · exact Or.inr (hca.trans_lt h)

namespace State

open Exact

variable {ctx : Context α} {s t u v : State α} {m b : Nat} {e₀ e a : α}

/-! ### The first least error -/

/-- Of the prepared error `e₀` and those before each of `m` moves, `e` is the least, and first
reached after `b` moves. -/
structure IsFirstLeast (ctx : Context α) (s : State α) (e₀ : α) (m b : Nat) (e : α) : Prop where
  place : b = 0 ∨ b < m
  value : errorAfter ctx s b = .ok e
  prepared : Comparable.lt e₀ e = .ok false
  least : ∀ k < m, ∃ a, errorAfter ctx s k = .ok a ∧ Comparable.lt a e = .ok false
  first : ∀ k < b, ∃ a, errorAfter ctx s k = .ok a ∧ Comparable.lt e a = .ok true

namespace IsFirstLeast

/-- One more error that is not below the least one. -/
theorem kept (h : IsFirstLeast ctx s e₀ m b e) (ha : errorAfter ctx s m = .ok a)
    (hnot : Comparable.lt a e = .ok false) : IsFirstLeast ctx s e₀ (m + 1) b e where
  place := h.place.imp_right Nat.lt_succ_of_lt
  value := h.value
  prepared := h.prepared
  least k hk := by
    rcases Nat.lt_succ_iff_lt_or_eq.1 hk with hk | rfl
    · exact h.least k hk
    · exact ⟨a, ha, hnot⟩
  first := h.first

/-- One more error that is below the least one takes its place. -/
theorem improved {P : α → Prop} (hP : Ranked P)
    (hall : ∀ k ≤ m, ∀ a, errorAfter ctx s k = .ok a → P a) (h₀ : P e₀)
    (h : IsFirstLeast ctx s e₀ m b e) (ha : errorAfter ctx s m = .ok a)
    (hlt : Comparable.lt a e = .ok true) : IsFirstLeast ctx s e₀ (m + 1) m a := by
  have hbound : b ≤ m := by
    rcases h.place with rfl | hlt
    · exact m.zero_le
    · exact hlt.le
  have hPa := hall m le_rfl a ha
  have hPe := hall b hbound e h.value
  have hbefore : ∀ k < m, ∃ c, errorAfter ctx s k = .ok c ∧ Comparable.lt a c = .ok true ∧
      Comparable.lt c a = .ok false := by
    intro k hk
    obtain ⟨c, hc, hnot⟩ := h.least k hk
    have hPc := hall k hk.le c hc
    have hac := hP.lt_of_lt_of_not_lt hPa hPe hPc hlt hnot
    exact ⟨c, hc, hac, hP.asymm hPa hPc hac⟩
  have hinitial := hP.lt_of_lt_of_not_lt hPa hPe h₀ hlt h.prepared
  refine ⟨Or.inr m.lt_succ_self, ha, hP.asymm hPa h₀ hinitial, fun k hk => ?_, fun k hk => ?_⟩
  · rcases Nat.lt_succ_iff_lt_or_eq.1 hk with hk | rfl
    · obtain ⟨c, hc, -, hca⟩ := hbefore k hk
      exact ⟨c, hc, hca⟩
    · exact ⟨a, ha, hP.irrefl hPa⟩
  · obtain ⟨c, hc, hac, -⟩ := hbefore k hk
    exact ⟨c, hc, hac⟩

end IsFirstLeast

/-! ### The loop -/

/-- What a state notes of a Tabu search from `s` after `m` iterations. -/
structure Tracked (ctx : Context α) (s : State α) (e₀ : α) (m b : Nat) (e : α) (v : State α) :
    Prop where
  strategy : v.strategy = s.strategy
  iterated : v.iterated = m
  bestIteration : v.bestIteration = b
  bestError : v.bestError = some e
  bestPalette : ∃ w, after ctx s b = .ok w ∧ v.bestPalette = w.palette
  firstLeast : IsFirstLeast ctx s e₀ m b e

/-- The errors before the moves of a search are among those that it meets. -/
theorem meets_of_rounds (h : Rounds ctx s.opened m v) :
    ∀ k ≤ m, ∀ a, errorAfter ctx s k = .ok a → Meets ctx s.opened a := by
  induction h with
  | none =>
    intro k hk a ha
    obtain rfl := Nat.le_zero.1 hk
    exact ⟨s.opened, .first, ha⟩
  | @next n v u hv hgo hu ih =>
    intro k hk a ha
    rcases Nat.le_succ_iff.1 hk with hk | rfl
    · exact ih k hk a ha
    · have hround := hv.next hgo hu
      rw [errorAfter_of_rounds hround] at ha
      exact ⟨u, hround.iterated, ha⟩

/-- An iteration measures before it moves, so it records the palette of the moves so far. -/
theorem Tracked.iterate (hP : Ranked (Meets ctx s.opened)) (h₀ : errorAfter ctx s 0 = .ok e₀)
    (hv : Rounds ctx s.opened m v) (h : Tracked ctx s e₀ m b e v)
    (hu : (State.iterate ctx).apply v = .ok u) : ∃ b' e', Tracked ctx s e₀ (m + 1) b' e' u := by
  have hmeets := meets_of_rounds hv
  obtain ⟨r, w, ⟨error, herror, hr⟩, hw, rfl⟩ := iterate_eq_ok.1 hu
  have hstanding : w.standing = r.standing := (keeps_tabuStep overlooks_standing).apply hw
  have hclock : w.clock = r.clock := (keeps_tabuStep overlooks_clock).apply hw
  simp only [standing, clock, Prod.mk.injEq] at hstanding hclock
  obtain ⟨hstrategy, hbest, hpalette⟩ := hstanding
  obtain ⟨-, hiterated, hiteration, -⟩ := hclock
  rw [h.strategy, ← errorAfter_of_rounds hv] at herror
  rw [h.bestError] at hr
  have hnext : v.iterated + 1 = (m + 1 : Nat) := by
    rw [h.iterated]
    rfl
  rcases hr with ⟨hlt, _, -, rfl⟩ | ⟨hnot, rfl⟩
  · have hleast := h.firstLeast.improved hP hmeets (hmeets 0 m.zero_le e₀ h₀) herror hlt
    refine ⟨m, error, ⟨hstrategy.trans h.strategy, ?_, ?_, hbest, ?_, hleast⟩⟩
    · exact (congrArg (· + 1) hiterated).trans hnext
    · exact hiteration.trans h.iterated
    · exact ⟨_, after_of_rounds hv, hpalette⟩
  · have hleast := h.firstLeast.kept herror hnot
    refine ⟨b, e, ⟨hstrategy.trans h.strategy, ?_, ?_, ?_, ?_, hleast⟩⟩
    · exact (congrArg (· + 1) hiterated).trans hnext
    · exact hiteration.trans h.bestIteration
    · exact hbest.trans h.bestError
    · obtain ⟨best, hbest, heq⟩ := h.bestPalette
      exact ⟨best, hbest, hpalette.trans heq⟩

theorem exists_tracked (hP : Ranked (Meets ctx s.opened)) (h₀ : errorAfter ctx s 0 = .ok e₀)
    (hs : Tracked ctx s e₀ 0 0 e₀ s.opened) (h : Rounds ctx s.opened m v) :
    ∃ b e, Tracked ctx s e₀ m b e v := by
  induction h with
  | none => exact ⟨0, e₀, hs⟩
  | next hv _ hu ih =>
    obtain ⟨b, e, hb⟩ := ih
    exact hb.iterate hP h₀ hv hu

/-- A prepared state notes its own error as the best one. -/
theorem exists_tracked_of_prepare {source : List (Triple α)} {spent : α}
    (hP : Ranked (Meets ctx t.opened)) (h : (prepare ctx source spent).apply s = .ok t) :
    ∃ e₀, t.bestError = some e₀ ∧ errorAfter ctx t 0 = .ok e₀ ∧
      Tracked ctx t e₀ 0 0 e₀ t.opened := by
  obtain ⟨_, eyes, q, es, e₀, _, -, -, -, he₀, -, rfl⟩ := prepare_eq_ok.1 h
  refine ⟨e₀, rfl, he₀, rfl, rfl, rfl, rfl, ⟨_, rfl, rfl⟩, Or.inl rfl, he₀, ?_, nofun, nofun⟩
  exact hP.irrefl ⟨_, .first, he₀⟩

/-- A Tabu search from a prepared state ends with the least of the prepared error and the errors
before each of its moves, with the first number of moves after which the palette had it, and with
the palette of that time. As long as every move is one that has been weighed, these are the errors
that the palettes have when they are measured on their own. -/
theorem exploreTabu_tracks {r s t : State α} {source : List (Triple α)} {spent : α}
    (hserved : Served ctx r) (hprepared : (prepare ctx source spent).apply r = .ok s)
    (hranked : Ranked (Meets ctx s.opened)) (h : (exploreTabu ctx).apply s = .ok t) :
    ∃ (m b : Nat) (e₀ e : α) (u : State α), Rounds ctx s.opened m u ∧ mayGoOn u = .ok false ∧
      t = { u with phase := .done } ∧ s.bestError = some e₀ ∧ Tracked ctx s e₀ m b e t ∧
      ∀ n v, after ctx s n = .ok v → (∀ k < n, ∀ w, after ctx s k = .ok w → w.HasMove ctx) →
        paletteError ctx v.palette s.strategy.mode = errorAfter ctx s n := by
  obtain ⟨u, hu, hstop, rfl⟩ := iterated_of_exploreTabu h
  obtain ⟨m, hm⟩ := exists_rounds hu
  obtain ⟨e₀, hbest, h₀, hstart⟩ := exists_tracked_of_prepare hranked hprepared
  obtain ⟨b, e, ht⟩ := exists_tracked hranked h₀ hstart hm
  refine ⟨m, b, e₀, e, u, hm, hstop, rfl, hbest, ?_, fun n v hv hmoves => ?_⟩
  · exact ⟨ht.strategy, ht.iterated, ht.bestIteration, ht.bestError, ht.bestPalette, ht.firstLeast⟩
  · have hcoherent := coherent_of_after (coherent_of_prepare hserved hprepared) hmoves hv
    rw [hcoherent.paletteError_eq, errorAfter, hv]
    rfl

/-- Black and white for a red-blind search. -/
theorem exploreTabu_tracks_black_white : ∃ (ctx : Context ℝ) (s t : State ℝ) (m b : Nat) (e₀ e : ℝ),
    Context.ofLinear [Triple.replicate 0, Triple.replicate 1] .red Settings.standard = .ok ctx ∧
      (prepare ctx ctx.original 0).apply (State.idle ctx.deficiency .tabuSum) = .ok s ∧
      (exploreTabu ctx).apply s = .ok t ∧ 0 < m ∧ s.bestError = some e₀ ∧
      Tracked ctx s e₀ m b e t := by
  obtain ⟨ctx, s, hctx, hs, hregular, hready, -, hgo⟩ := exists_black_white
  have hserved : Served ctx (State.idle ctx.deficiency .tabuSum) := Projector.serves_ofDeficiency _
  obtain ⟨t, ht, -, -, -, hmoves⟩ := exists_exploreTabu hready
  obtain ⟨m, b, e₀, e, u, -, -, -, hbest, htracked, -⟩ :=
    exploreTabu_tracks hserved hs (ranked _) ht
  obtain ⟨-, -, -, hiterated, -⟩ := ready_of_prepare hserved hregular.original hs
  have hmoved : 0 < m := by
    have hle := hmoves hgo
    rw [hiterated, htracked.iterated] at hle
    omega
  exact ⟨ctx, s, t, m, b, e₀, e, hctx, hs, ht, hmoved, hbest, htracked⟩

end State

end Dichromat
