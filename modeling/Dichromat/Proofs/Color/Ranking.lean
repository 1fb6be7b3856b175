import Mathlib.Data.Prod.Lex
import Dichromat.Proofs.Color.Order
import Dichromat.Proofs.Counting

/-!
# Rankings of the channels

Ordering the channels, finding the lowest and finding the highest compare the channels in different
ways. Each of them follows the same strict order, `Channel.Precedes`: by value, and of equal values
blue before red before green. So they agree, with any ties (`order_sorts`).
-/

namespace Dichromat

variable {α β : Type} [LinearOrder β] {key : Channel → β} {k l m : Channel}

namespace Channel

/-- The place of a channel among channels of equal values. -/
def priority : Channel → ℕ
  | blue => 0
  | red => 1
  | green => 2

/-- The channel of the lower key comes first; of equal keys blue before red before green. -/
def Precedes (key : Channel → β) (k l : Channel) : Prop :=
  key k < key l ∨ key k = key l ∧ k.priority < l.priority

theorem precedes_iff_toLex : Precedes key k l ↔
    toLex (key k, k.priority) < toLex (key l, l.priority) := by
  rw [Prod.Lex.toLex_lt_toLex]
  rfl

theorem Precedes.trans (h : Precedes key k l) (h' : Precedes key l m) : Precedes key k m := by
  rw [precedes_iff_toLex] at *
  exact h.trans h'

theorem Precedes.not_precedes (h : Precedes key k l) : ¬ Precedes key l k := by
  rw [precedes_iff_toLex] at *
  exact h.not_gt

theorem Precedes.ne (h : Precedes key k l) : k ≠ l := by
  rintro rfl
  exact h.not_precedes h

theorem precedes_of_lt (h : key k < key l) : Precedes key k l := Or.inl h

theorem precedes_of_le (h : key k ≤ key l) (hpriority : k.priority < l.priority) :
    Precedes key k l :=
  h.lt_or_eq.imp_right fun heq => ⟨heq, hpriority⟩

theorem mem_all (k : Channel) : k ∈ all := by cases k <;> decide

/-- The two anchors of a channel are the two other channels. -/
theorem ne_iff_anchor : l ≠ k ↔ l = k.anchors.1 ∨ l = k.anchors.2 := by
  cases k <;> cases l <;> decide

end Channel

namespace Ranking

theorem mem_toList_iff {o : Ranking} :
    k ∈ o.toList ↔ k = o.lowest ∨ k = o.middle ∨ k = o.highest := by
  simp only [toList, List.mem_cons, List.not_mem_nil, or_false]

theorem pairwise_toList_iff {R : Channel → Channel → Prop} {o : Ranking} : o.toList.Pairwise R ↔
    R o.lowest o.middle ∧ R o.lowest o.highest ∧ R o.middle o.highest := by
  simp [toList, and_assoc]

/-- Two lists of all channels in the same strict order are the same. -/
theorem eq_toList_iff {o : Ranking} (hperm : o.toList.Perm Channel.all)
    (horder : o.toList.Pairwise (Channel.Precedes key)) {channels : List Channel} :
    channels = o.toList ↔
      channels.Perm Channel.all ∧ channels.Pairwise (Channel.Precedes key) := by
  constructor
  · rintro rfl
    exact ⟨hperm, horder⟩
  · rintro ⟨hperm', horder'⟩
    -- no two channels precede each other, so ties leave no choice
    exact (hperm'.trans hperm.symm).eq_of_pairwise
      (fun _ _ _ _ h h' => absurd h' h.not_precedes) horder' horder

end Ranking

namespace Triple

open Channel

variable [Comparable α] {t : Triple α}

/-! ### What is found precedes, or is preceded by, all others -/

theorem OrderedBy.exists_lowest (h : t.OrderedBy key) :
    ∃ k, t.lowest = .ok k ∧ ∀ l ≠ k, Precedes key k l := by
  rcases h.lowest_cases with ⟨hk, h₁, h₂⟩ | ⟨hk, h₁, h₂⟩ | ⟨hk, h₁, h₂⟩
  · exact ⟨_, hk, forall_of_anchors .red (absurd rfl)
      (fun _ => precedes_of_le h₁ (by decide)) fun _ => precedes_of_lt h₂⟩
  · exact ⟨_, hk, forall_of_anchors .green (absurd rfl)
      (fun _ => precedes_of_lt h₂) fun _ => precedes_of_lt h₁⟩
  · exact ⟨_, hk, forall_of_anchors .blue (absurd rfl)
      (fun _ => precedes_of_le h₁ (by decide)) fun _ => precedes_of_le h₂ (by decide)⟩

theorem OrderedBy.exists_highest (h : t.OrderedBy key) :
    ∃ k, t.highest = .ok k ∧ ∀ l ≠ k, Precedes key l k := by
  rcases h.highest_cases with ⟨hk, h₁, h₂⟩ | ⟨hk, h₁, h₂⟩ | ⟨hk, h₁, h₂⟩
  · exact ⟨_, hk, forall_of_anchors .red (absurd rfl)
      (fun _ => precedes_of_lt h₁) fun _ => precedes_of_le h₂ (by decide)⟩
  · exact ⟨_, hk, forall_of_anchors .green (absurd rfl)
      (fun _ => precedes_of_le h₂ (by decide)) fun _ => precedes_of_le h₁ (by decide)⟩
  · exact ⟨_, hk, forall_of_anchors .blue (absurd rfl)
      (fun _ => precedes_of_lt h₁) fun _ => precedes_of_lt h₂⟩

theorem OrderedBy.exists_order (h : t.OrderedBy key) : ∃ o, t.order = .ok o ∧
    o.toList.Perm Channel.all ∧ o.toList.Pairwise (Precedes key) := by
  suffices hsteps : ∃ o, t.order = .ok o ∧ o.toList.Perm Channel.all ∧
      Precedes key o.lowest o.middle ∧ Precedes key o.middle o.highest by
    obtain ⟨o, ho, hperm, hlow, hhigh⟩ := hsteps
    exact ⟨o, ho, hperm, Ranking.pairwise_toList_iff.2 ⟨hlow, hlow.trans hhigh, hhigh⟩⟩
  rcases h.order_cases with ⟨ho, h₁, h₂⟩ | ⟨ho, h₁, h₂⟩ | ⟨ho, h₁, h₂⟩ | ⟨ho, h₁, h₂⟩ |
    ⟨ho, h₁, h₂⟩ | ⟨ho, h₁, h₂⟩
  · exact ⟨_, ho, by decide, precedes_of_le h₁ (by decide), precedes_of_lt h₂⟩
  · exact ⟨_, ho, by decide, precedes_of_lt h₁, precedes_of_le h₂ (by decide)⟩
  · exact ⟨_, ho, by decide, precedes_of_le h₁ (by decide), precedes_of_le h₂ (by decide)⟩
  · exact ⟨_, ho, by decide, precedes_of_lt h₁, precedes_of_lt h₂⟩
  · exact ⟨_, ho, by decide, precedes_of_lt h₁, precedes_of_le h₂ (by decide)⟩
  · exact ⟨_, ho, by decide, precedes_of_le h₁ (by decide), precedes_of_lt h₂⟩

/-! ### The ends of an order -/

/-- The channel that precedes all others is the first one. -/
theorem OrderedBy.lowest_eq (h : t.OrderedBy key) {o : Ranking}
    (hperm : o.toList.Perm Channel.all) (horder : o.toList.Pairwise (Precedes key)) :
    t.lowest = .ok o.lowest := by
  obtain ⟨k, hk, hfirst⟩ := h.exists_lowest
  obtain ⟨hmiddle, hhighest, -⟩ := Ranking.pairwise_toList_iff.1 horder
  rcases Ranking.mem_toList_iff.1 (hperm.mem_iff.2 (mem_all k)) with rfl | rfl | rfl
  · exact hk
  · exact absurd (hfirst _ hmiddle.ne) hmiddle.not_precedes
  · exact absurd (hfirst _ hhighest.ne) hhighest.not_precedes

/-- The channel that all others precede is the last one. -/
theorem OrderedBy.highest_eq (h : t.OrderedBy key) {o : Ranking}
    (hperm : o.toList.Perm Channel.all) (horder : o.toList.Pairwise (Precedes key)) :
    t.highest = .ok o.highest := by
  obtain ⟨k, hk, hlast⟩ := h.exists_highest
  obtain ⟨-, hlowest, hmiddle⟩ := Ranking.pairwise_toList_iff.1 horder
  rcases Ranking.mem_toList_iff.1 (hperm.mem_iff.2 (mem_all k)) with rfl | rfl | rfl
  · exact absurd (hlast _ hlowest.ne.symm) hlowest.not_precedes
  · exact absurd (hlast _ hmiddle.ne.symm) hmiddle.not_precedes
  · exact hk

/-- Whole numbers are ordered as integers. -/
theorem orderedBy_whole {α : Type} [Arith α] [Counting α] (t : Triple ℤ) :
    (t.map Arith.whole : Triple α).OrderedBy t.get where
  lt_eq k l := by
    rw [get_map, get_map]
    exact lt_whole _ _
  le_eq k l := by
    rw [get_map, get_map]
    exact le_whole _ _

/-- The order of the channels is the one arrangement of all channels by value in which, of equal
values, blue comes before red before green. The lowest channel is its first and the highest its last
one, and the anchors of the lowest channel are two channels, which are all the others. -/
theorem order_sorts (h : t.OrderedBy key) : ∃ o, t.order = .ok o ∧
    (∀ channels : List Channel, channels = o.toList ↔
      channels.Perm Channel.all ∧ channels.Pairwise (Precedes key)) ∧
    t.lowest = .ok o.lowest ∧ t.highest = .ok o.highest ∧
    o.lowest.anchors.1 ≠ o.lowest.anchors.2 ∧
    ∀ k, k ≠ o.lowest ↔ k = o.lowest.anchors.1 ∨ k = o.lowest.anchors.2 := by
  obtain ⟨o, ho, hperm, horder⟩ := h.exists_order
  exact ⟨o, ho, fun _ => Ranking.eq_toList_iff hperm horder, h.lowest_eq hperm horder,
    h.highest_eq hperm horder, fst_anchors_ne_snd _, fun _ => ne_iff_anchor⟩

/-- Three equal values: blue is the lowest of them and green the highest. -/
theorem order_sorts_equal :
    (⟨.int 4, .int 4, .int 4⟩ : Triple Value).OrderedBy (Triple.replicate (4 : ℤ)).get ∧
    (⟨.int 4, .int 4, .int 4⟩ : Triple Value).order = .ok ⟨.blue, .red, .green⟩ ∧
    (⟨.int 4, .int 4, .int 4⟩ : Triple Value).lowest = .ok .blue ∧
    (⟨.int 4, .int 4, .int 4⟩ : Triple Value).highest = .ok .green ∧
    Channel.anchors .blue = (.red, .green) := by
  have hordered : (⟨.int 4, .int 4, .int 4⟩ : Triple Value).OrderedBy
      (Triple.replicate (4 : ℤ)).get := orderedBy_whole (Triple.replicate 4)
  obtain ⟨o, ho, hlist, hlowest, hhighest, -⟩ := order_sorts hordered
  have hsorted : [.blue, .red, .green] = o.toList :=
    (hlist _).2 ⟨by decide, by simp [Precedes, priority, Triple.get, Triple.replicate]⟩
  obtain ⟨lowest, middle, highest⟩ := o
  simp only [Ranking.toList, List.cons.injEq, and_true] at hsorted
  obtain ⟨rfl, rfl, rfl⟩ := hsorted
  exact ⟨hordered, ho, hlowest, hhighest, rfl⟩

end Triple

end Dichromat
