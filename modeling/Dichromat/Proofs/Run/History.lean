import Dichromat.Proofs.Search.Best

/-!
# Histories of best errors

A run notes the best error after every Sum phase (`Tracks`). Every note is the least of the errors
so far (`Tracks.isLeast_take`), so that the notes never increase (`Tracks.falling`).
-/

namespace Dichromat

variable {α : Type} [ColorArith α] {best b : Option α} {errors es hs : List (Option α)} {e a : α}

/-! ### Least errors -/

/-- Whether a best error stands for an error; without one, the error is infinite. -/
def Stands (best : Option α) (e : α) : Prop :=
  best = some e ∨ best = none ∧ Arith.bounded e = .ok false

/-- The best error stands for one of the errors, and none of them is below it. -/
structure IsLeastError (best : Option α) (errors : List (Option α)) : Prop where
  mem : ∃ e, some e ∈ errors ∧ Stands best e
  least : ∀ x ∈ errors, ∃ e, x = some e ∧ isBelow e best = .ok false

theorem IsLeastError.not_below (h : IsLeastError best errors) (he : some e ∈ errors) :
    isBelow e best = .ok false := by
  obtain ⟨e', he', hnot⟩ := h.least _ he
  rwa [Option.some.inj he']

theorem IsLeastError.mem_of_some (h : IsLeastError (some a) errors) : some a ∈ errors := by
  obtain ⟨e, he, hstands⟩ := h.mem
  rcases hstands with ha | ⟨ha, -⟩
  · rwa [ha]
  · exact nomatch ha

/-! ### Histories -/

/-- The best error after one more error. -/
inductive Updates (best : Option α) (e : α) : Option α → Prop
  | better (h : isBelow e best = .ok true) : Updates best e (some e)
  | kept (h : isBelow e best = .ok false) : Updates best e best

/-- A history notes after every error the best one so far; the last note is the best error now. -/
inductive Tracks : List (Option α) → List (Option α) → Option α → Prop
  | nil : Tracks [] [] none
  | snoc {es hs : List (Option α)} {best best' : Option α} {e : α} (h : Tracks es hs best)
      (h' : Updates best e best') : Tracks (es ++ [some e]) (hs ++ [best']) best'

namespace Tracks

variable (h : Tracks es hs best)

include h

theorem length_eq : hs.length = es.length := by
  induction h with
  | nil => rfl
  | snoc _ _ ih => rw [List.length_append, List.length_append, ih]; rfl

theorem getLast?_eq (hne : es ≠ []) : hs.getLast? = some best := by
  cases h with
  | nil => exact absurd rfl hne
  | snoc _ _ => exact List.getLast?_concat

theorem mem_of_best (ha : best = some a) : some a ∈ es := by
  induction h with
  | nil => exact nomatch ha
  | snoc _ h' ih =>
    cases h' with
    | better _ => exact List.mem_append_right _ (ha ▸ List.mem_singleton_self _)
    | kept _ => exact List.mem_append_left _ (ih ha)

theorem exists_stands (hne : es ≠ []) : ∃ e, some e ∈ es ∧ Stands best e := by
  cases h with
  | nil => exact absurd rfl hne
  | @snoc es hs best best' e h h' =>
    have hlast : some e ∈ es ++ [some e] := List.mem_append_right _ (List.mem_singleton_self _)
    cases h' with
    | better _ => exact ⟨e, hlast, Or.inl rfl⟩
    | kept hkept =>
      rcases best with _ | a
      · exact ⟨e, hlast, Or.inr ⟨rfl, hkept⟩⟩
      · exact ⟨a, List.mem_append_left _ (h.mem_of_best rfl), Or.inl rfl⟩

variable {P : α → Prop} (hP : Ordered P) (hes : ∀ e, some e ∈ es → P e)

include hP hes

theorem not_below : ∀ x ∈ es, ∃ e, x = some e ∧ isBelow e best = .ok false := by
  induction h with
  | nil => exact nofun
  | @snoc es hs best best' e h h' ih =>
    have hold : ∀ a, some a ∈ es → P a := fun a ha => hes a (List.mem_append_left _ ha)
    have he : P e := hes e (List.mem_append_right _ (List.mem_singleton_self _))
    have hbest : ∀ b, best = some b → P b := fun b hb => hold b (h.mem_of_best hb)
    intro x hx
    cases h' with
    | better hbetter =>
      rcases List.mem_append.1 hx with hx | hx
      · obtain ⟨a, rfl, ha⟩ := ih hold x hx
        exact ⟨a, rfl, hP.not_lt_of_isBelow (hold a hx) he hbest ha hbetter⟩
      · obtain rfl := List.mem_singleton.1 hx
        exact ⟨e, rfl, hP.irrefl he⟩
    | kept hkept =>
      rcases List.mem_append.1 hx with hx | hx
      · exact ih hold x hx
      · obtain rfl := List.mem_singleton.1 hx
        exact ⟨e, rfl, hkept⟩

theorem isLeast (hne : es ≠ []) : IsLeastError best es :=
  ⟨h.exists_stands hne, h.not_below hP hes⟩

/-- Every note is the least error up to its own. -/
theorem isLeast_take {n : Nat} (hn : hs[n]? = some b) : IsLeastError b (es.take (n + 1)) := by
  induction h with
  | nil => exact nomatch hn
  | @snoc es hs best best' e h h' ih =>
    have hlen := h.length_eq
    rcases Nat.lt_or_ge n hs.length with hlt | hge
    · rw [List.getElem?_append_left hlt] at hn
      rw [List.take_append_of_le_length (by omega)]
      exact ih (fun a ha => hes a (List.mem_append_left _ ha)) hn
    · have hlt : n < (hs ++ [best']).length := (List.getElem?_eq_some_iff.1 hn).1
      rw [List.length_append, List.length_singleton] at hlt
      obtain rfl : n = hs.length := by omega
      rw [List.getElem?_concat_length] at hn
      obtain rfl := Option.some.inj hn
      rw [List.take_of_length_le (by rw [List.length_append, List.length_singleton]; omega)]
      exact (h.snoc h').isLeast hP hes (List.append_ne_nil_of_right_ne_nil _ (List.cons_ne_nil _ _))

/-- No note is above an earlier one. -/
theorem falling {m n : Nat} (hmn : m ≤ n) (hm : hs[m]? = some (some a)) (hn : hs[n]? = some b) :
    isBelow a b = .ok false := by
  have ha : some a ∈ es.take (m + 1) := (h.isLeast_take hP hes hm).mem_of_some
  refine (h.isLeast_take hP hes hn).not_below (List.mem_of_mem_take (i := m + 1) ?_)
  rwa [List.take_take, Nat.min_eq_left (Nat.succ_le_succ hmn)]

end Tracks

end Dichromat
