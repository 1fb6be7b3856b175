import Dichromat.Proofs.Search.Frame
import Dichromat.Proofs.Search.Phase

/-!
# The best palette of a phase

Where comparisons order the errors strictly (`Ordered`), the best error of a Tabu search is at every
iteration the error of its best palette, which the search has held, and it is not above the error
that the search began with (`State.bestHeld_of_iterated`).
-/

namespace Dichromat

variable {α : Type} [ColorArith α]

/-! ### Errors in order -/

/-- Numbers that comparisons never refuse and order strictly, with infinity above all that are below
another one. -/
structure Ordered (P : α → Prop) : Prop where
  lt_ok {a b : α} (ha : P a) (hb : P b) : ∃ r, Comparable.lt a b = .ok r
  irrefl {a : α} (ha : P a) : Comparable.lt a a = .ok false
  trans {a b c : α} (ha : P a) (hb : P b) (hc : P c) (h : Comparable.lt a b = .ok true)
    (h' : Comparable.lt b c = .ok true) : Comparable.lt a c = .ok true
  bounded_ok {a : α} (ha : P a) : ∃ r, Arith.bounded a = .ok r
  bounded_of_lt {a b : α} (ha : P a) (hb : P b) (h : Comparable.lt a b = .ok true) :
    Arith.bounded a = .ok true

theorem Ordered.mono {P Q : α → Prop} (hP : Ordered P) (h : ∀ a, Q a → P a) : Ordered Q where
  lt_ok ha hb := hP.lt_ok (h _ ha) (h _ hb)
  irrefl ha := hP.irrefl (h _ ha)
  trans ha hb hc := hP.trans (h _ ha) (h _ hb) (h _ hc)
  bounded_ok ha := hP.bounded_ok (h _ ha)
  bounded_of_lt ha hb := hP.bounded_of_lt (h _ ha) (h _ hb)

namespace Ordered

variable {P : α → Prop} (hP : Ordered P) {a b : α} {best : Option α}

include hP

theorem isBelow_ok (ha : P a) (hbest : ∀ b, best = some b → P b) :
    ∃ r, isBelow a best = .ok r := by
  rcases best with _ | b
  · exact hP.bounded_ok ha
  · exact hP.lt_ok ha (hbest b rfl)

theorem isBelow_trans (ha : P a) (hb : P b) (hbest : ∀ b, best = some b → P b)
    (h : Comparable.lt a b = .ok true) (h' : isBelow b best = .ok true) :
    isBelow a best = .ok true := by
  rcases best with _ | c
  · exact hP.bounded_of_lt ha hb h
  · exact hP.trans ha hb (hbest c rfl) h h'

/-- What is not below a best error is not below anything that is below it. -/
theorem not_lt_of_isBelow (ha : P a) (hb : P b) (hbest : ∀ b, best = some b → P b)
    (h : isBelow a best = .ok false) (h' : isBelow b best = .ok true) :
    Comparable.lt a b = .ok false := by
  obtain ⟨r, hr⟩ := hP.lt_ok ha hb
  cases r with
  | false => exact hr
  | true => exact nomatch h.symm.trans (hP.isBelow_trans ha hb hbest hr h')

/-- What lies above an error that is not below a best one is not below it either. -/
theorem not_isBelow_of_lt (ha : P a) (hb : P b) (hbest : ∀ b, best = some b → P b)
    (h : Comparable.lt a b = .ok true) (h' : isBelow a best = .ok false) :
    isBelow b best = .ok false := by
  obtain ⟨r, hr⟩ := hP.isBelow_ok hb hbest
  cases r with
  | false => exact hr
  | true => exact nomatch h'.symm.trans (hP.isBelow_trans ha hb hbest h hr)

end Ordered

/-! ### A phase -/

namespace State

variable {ctx : Context α} {s t u : State α} {e₀ : α}

/-- An error of a state at which an iteration begins or the search ends. -/
def Meets (ctx : Context α) (s : State α) (e : α) : Prop :=
  ∃ v, Iterated ctx s v ∧ s.strategy.mode.aggregate v.errors = .ok e

/-- The best palette is one that a Tabu search has held, with the best error as its error, and this
is not above the error `e₀`. -/
structure BestHeld (ctx : Context α) (s : State α) (e₀ : α) (u : State α) : Prop where
  strategy : u.strategy = s.strategy
  best : ∃ v e, Iterated ctx s v ∧ v.palette = u.bestPalette ∧ u.bestError = some e ∧
    s.strategy.mode.aggregate v.errors = .ok e ∧ (e = e₀ ∨ Comparable.lt e e₀ = .ok true)

theorem BestHeld.iterate (hP : Ordered (Meets ctx s)) (h₀ : Meets ctx s e₀)
    (ht : Iterated ctx s t) (h : BestHeld ctx s e₀ t) (hu : (iterate ctx).apply t = .ok u) :
    BestHeld ctx s e₀ u := by
  obtain ⟨hstrategy, v, e, hv, hpalette, hbest, he, hle⟩ := h
  obtain ⟨r, w, ⟨error, herror, hr⟩, hw, rfl⟩ := iterate_eq_ok.1 hu
  have hkept : w.standing = r.standing := (keeps_tabuStep overlooks_standing).apply hw
  obtain ⟨hws, hwb, hwp⟩ : w.strategy = r.strategy ∧ w.bestError = r.bestError ∧
      w.bestPalette = r.bestPalette := by
    simpa only [standing, Prod.mk.injEq] using hkept
  rw [hstrategy] at herror
  rcases hr with ⟨hbelow, limit, -, rfl⟩ | ⟨-, rfl⟩
  · refine ⟨hws.trans hstrategy, t, error, ht, hwp.symm, hwb, herror, Or.inr ?_⟩
    have hlt : Comparable.lt error e = .ok true := by
      rw [hbest] at hbelow
      exact hbelow
    rcases hle with rfl | hle
    · exact hlt
    · exact hP.trans ⟨t, ht, herror⟩ ⟨v, hv, he⟩ h₀ hlt hle
  · exact ⟨hws.trans hstrategy, v, e, hv, hpalette.trans hwp.symm, hwb.trans hbest, he, hle⟩

/-- A search that begins with a best error ends with one. -/
theorem exists_bestError_of_iterated (hs : ∃ e, s.bestError = some e) (h : Iterated ctx s t) :
    ∃ e, t.bestError = some e := by
  induction h with
  | first => exact hs
  | next _ _ hu ih =>
    obtain ⟨r, w, ⟨error, -, hr⟩, hw, rfl⟩ := iterate_eq_ok.1 hu
    have hkept : w.standing = r.standing := (keeps_tabuStep overlooks_standing).apply hw
    have hbest : w.bestError = r.bestError := congrArg (·.2.1) hkept
    rcases hr with ⟨-, _, -, rfl⟩ | ⟨-, rfl⟩
    · exact ⟨error, hbest⟩
    · exact ih.imp fun e he => hbest.trans he

/-- In every iteration of a Tabu search from a state whose palette is the best one so far. -/
theorem bestHeld_of_iterated (hP : Ordered (Meets ctx s)) (hpalette : s.bestPalette = s.palette)
    (hbest : s.bestError = some e₀) (h₀ : s.strategy.mode.aggregate s.errors = .ok e₀)
    (h : Iterated ctx s t) : BestHeld ctx s e₀ t := by
  induction h with
  | first => exact ⟨rfl, s, e₀, .first, hpalette.symm, hbest, h₀, Or.inl rfl⟩
  | next ht _ hu ih => exact ih.iterate hP ⟨s, .first, h₀⟩ ht hu

end State

end Dichromat
