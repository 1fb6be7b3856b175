import Mathlib.Order.Lattice
import Dichromat.Color.Channel
import Dichromat.Proofs.Outcome

/-!
# The order of channels by value

Where the comparisons of the channels always succeed and order them as some keys, finding the lowest
or the highest channel and ordering the channels always succeed. Three lemmas say, for each answer,
which comparisons of the keys lead to it; over a linear order the values are keys themselves
(`Triple.orderedBy_get`). An order of the channels, wherever it comes from, may or may not suit the
values of a triple (`Ranking.Ascends`).
-/

namespace Dichromat

/-- The values of the channels, read in this order, ascend. -/
structure Ranking.Ascends {α : Type} [LE α] (o : Ranking) (c : Triple α) : Prop where
  lowest_le : c.get o.lowest ≤ c.get o.middle
  middle_le : c.get o.middle ≤ c.get o.highest

/-- Comparisons that always succeed and decide a linear order. -/
class LawfulComparable (α : Type) [LinearOrder α] [Comparable α] : Prop where
  lt_eq (a b : α) : Comparable.lt a b = .ok (decide (a < b))
  le_eq (a b : α) : Comparable.le a b = .ok (decide (a ≤ b))

namespace Triple

/-- Channels of which any two can be compared, and are ordered as their keys. -/
structure OrderedBy {α β : Type} [Comparable α] [LinearOrder β] (t : Triple α)
    (key : Channel → β) : Prop where
  lt_eq (k l : Channel) : Comparable.lt (t.get k) (t.get l) = .ok (decide (key k < key l))
  le_eq (k l : Channel) : Comparable.le (t.get k) (t.get l) = .ok (decide (key k ≤ key l))

section OrderedBy

variable {α β : Type} [Comparable α] [LinearOrder β] {t : Triple α} {key : Channel → β}

theorem OrderedBy.lowest_cases (h : t.OrderedBy key) :
    (t.lowest = .ok .red ∧ key .red ≤ key .green ∧ key .red < key .blue) ∨
      (t.lowest = .ok .green ∧ key .green < key .red ∧ key .green < key .blue) ∨
      (t.lowest = .ok .blue ∧ key .blue ≤ key .red ∧ key .blue ≤ key .green) := by
  simp only [lowest, lowestOf, term, ok_bind, h.lt_eq, h.le_eq, decide_eq_true_eq]
  by_cases hrg : key .red ≤ key .green
  · rw [if_pos hrg]
    by_cases hrb : key .red < key .blue
    · exact Or.inl ⟨by rw [if_pos hrb]; rfl, hrg, hrb⟩
    · exact Or.inr (Or.inr ⟨by rw [if_neg hrb]; rfl, not_lt.1 hrb, (not_lt.1 hrb).trans hrg⟩)
  · rw [if_neg hrg]
    have hgr := not_le.1 hrg
    by_cases hgb : key .green < key .blue
    · exact Or.inr (Or.inl ⟨by rw [if_pos hgb]; rfl, hgr, hgb⟩)
    · exact Or.inr (Or.inr
        ⟨by rw [if_neg hgb]; rfl, (not_lt.1 hgb).trans hgr.le, not_lt.1 hgb⟩)

theorem OrderedBy.highest_cases (h : t.OrderedBy key) :
    (t.highest = .ok .red ∧ key .green < key .red ∧ key .blue ≤ key .red) ∨
      (t.highest = .ok .green ∧ key .red ≤ key .green ∧ key .blue ≤ key .green) ∨
      (t.highest = .ok .blue ∧ key .red < key .blue ∧ key .green < key .blue) := by
  have hlt : Comparable.lt t.green t.red = _ := h.lt_eq .green .red
  have hle : Comparable.le t.blue t.red = _ := h.le_eq .blue .red
  have hle' : Comparable.le t.blue t.green = _ := h.le_eq .blue .green
  simp only [highest, ok_bind, hlt, hle, hle', decide_eq_true_eq]
  by_cases hgr : key .green < key .red
  · rw [if_pos hgr]
    by_cases hbr : key .blue ≤ key .red
    · exact Or.inl ⟨by rw [if_pos hbr]; rfl, hgr, hbr⟩
    · exact Or.inr (Or.inr
        ⟨by rw [if_neg hbr]; rfl, not_le.1 hbr, hgr.trans (not_le.1 hbr)⟩)
  · rw [if_neg hgr]
    have hrg := not_lt.1 hgr
    by_cases hbg : key .blue ≤ key .green
    · exact Or.inr (Or.inl ⟨by rw [if_pos hbg]; rfl, hrg, hbg⟩)
    · exact Or.inr (Or.inr
        ⟨by rw [if_neg hbg]; rfl, hrg.trans_lt (not_le.1 hbg), not_le.1 hbg⟩)

/-- The channels are ordered by key; of equal ones blue comes before red before green. -/
theorem OrderedBy.order_cases (h : t.OrderedBy key) :
    (t.order = .ok ⟨.red, .green, .blue⟩ ∧ key .red ≤ key .green ∧ key .green < key .blue) ∨
      (t.order = .ok ⟨.red, .blue, .green⟩ ∧ key .red < key .blue ∧ key .blue ≤ key .green) ∨
      (t.order = .ok ⟨.blue, .red, .green⟩ ∧ key .blue ≤ key .red ∧ key .red ≤ key .green) ∨
      (t.order = .ok ⟨.green, .red, .blue⟩ ∧ key .green < key .red ∧ key .red < key .blue) ∨
      (t.order = .ok ⟨.green, .blue, .red⟩ ∧ key .green < key .blue ∧ key .blue ≤ key .red) ∨
      (t.order = .ok ⟨.blue, .green, .red⟩ ∧ key .blue ≤ key .green ∧ key .green < key .red) := by
  have hle : Comparable.le t.red t.green = _ := h.le_eq .red .green
  have hlt : Comparable.lt t.green t.blue = _ := h.lt_eq .green .blue
  have hlt' : Comparable.lt t.red t.blue = _ := h.lt_eq .red .blue
  simp only [order, ok_bind, hle, hlt, hlt', decide_eq_true_eq]
  by_cases hrg : key .red ≤ key .green
  · rw [if_pos hrg]
    by_cases hgb : key .green < key .blue
    · exact Or.inl ⟨by rw [if_pos hgb]; rfl, hrg, hgb⟩
    · rw [if_neg hgb]
      by_cases hrb : key .red < key .blue
      · exact Or.inr (Or.inl ⟨by rw [if_pos hrb]; rfl, hrb, not_lt.1 hgb⟩)
      · exact Or.inr (Or.inr (Or.inl ⟨by rw [if_neg hrb]; rfl, not_lt.1 hrb, hrg⟩))
  · rw [if_neg hrg]
    have hgr := not_le.1 hrg
    by_cases hrb : key .red < key .blue
    · exact Or.inr (Or.inr (Or.inr (Or.inl ⟨by rw [if_pos hrb]; rfl, hgr, hrb⟩)))
    · rw [if_neg hrb]
      by_cases hgb : key .green < key .blue
      · exact Or.inr (Or.inr (Or.inr (Or.inr
          (Or.inl ⟨by rw [if_pos hgb]; rfl, hgb, not_lt.1 hrb⟩))))
      · exact Or.inr (Or.inr (Or.inr (Or.inr
          (Or.inr ⟨by rw [if_neg hgb]; rfl, not_lt.1 hgb, hgr⟩))))

end OrderedBy

/-- Over a linear order the values are keys themselves. -/
theorem orderedBy_get {α : Type} [LinearOrder α] [Comparable α] [LawfulComparable α]
    (t : Triple α) : t.OrderedBy t.get :=
  ⟨fun _ _ => LawfulComparable.lt_eq _ _, fun _ _ => LawfulComparable.le_eq _ _⟩

end Triple

end Dichromat
