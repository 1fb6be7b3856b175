import Mathlib.Data.Int.Order.Basic
import Dichromat.Value.Number

/-!
# Whole numbers

Numbers in which whole numbers are compared, added, subtracted and multiplied as whole numbers
(`Counting`). Where budgets are whole numbers, this is all that the loops of a search rely on; values
of any shape have it, whatever their floating-point numbers do.
-/

namespace Dichromat

/-- Numbers in which whole numbers count exactly. -/
class Counting (α : Type) [Arith α] : Prop where
  lt_whole (m n : Int) :
    Comparable.lt (Arith.whole m : α) (Arith.whole n) = .ok (decide (m < n))
  le_whole (m n : Int) :
    Comparable.le (Arith.whole m : α) (Arith.whole n) = .ok (decide (m ≤ n))
  add_whole (m n : Int) : Arith.add (Arith.whole m : α) (Arith.whole n) = .ok (Arith.whole (m + n))
  sub_whole (m n : Int) : Arith.sub (Arith.whole m : α) (Arith.whole n) = .ok (Arith.whole (m - n))
  mul_whole (m n : Int) : Arith.mul (Arith.whole m : α) (Arith.whole n) = .ok (Arith.whole (m * n))
  horizon_whole (n : Int) : Arith.horizon (Arith.whole n : α) = n.toNat

export Counting (lt_whole le_whole add_whole sub_whole mul_whole horizon_whole)

section

variable {α : Type} [Arith α] [Counting α] {m n : Int}

theorem lt_whole_eq_true : Comparable.lt (Arith.whole m : α) (Arith.whole n) = .ok true ↔ m < n := by
  rw [lt_whole, Except.ok.injEq, decide_eq_true_eq]

theorem lt_whole_eq_false :
    Comparable.lt (Arith.whole m : α) (Arith.whole n) = .ok false ↔ n ≤ m := by
  rw [lt_whole, Except.ok.injEq, decide_eq_false_iff_not, Int.not_lt]

theorem le_whole_eq_true : Comparable.le (Arith.whole m : α) (Arith.whole n) = .ok true ↔ m ≤ n := by
  rw [le_whole, Except.ok.injEq, decide_eq_true_eq]

theorem le_whole_eq_false :
    Comparable.le (Arith.whole m : α) (Arith.whole n) = .ok false ↔ n < m := by
  rw [le_whole, Except.ok.injEq, decide_eq_false_iff_not, Int.not_le]

end

namespace Value

theorem lt_int (m n : Int) : Value.lt (.int m) (.int n) = .ok (decide (m < n)) := by
  have h : Value.lt (.int m) (.int n) = .ok (some (compare m n) == some .lt) := rfl
  rw [h]
  rcases Int.lt_trichotomy m n with h | h | h
  · simp [Int.compare_eq_lt.2 h, h]
  · simp [h]
  · simp [Int.compare_eq_gt.2 h, Int.le_of_lt h]

theorem le_int (m n : Int) : Value.le (.int m) (.int n) = .ok (decide (m ≤ n)) := by
  have h : Value.le (.int m) (.int n) =
      .ok (some (compare m n) == some .lt || some (compare m n) == some .eq) := rfl
  rw [h]
  rcases Int.lt_trichotomy m n with h | h | h
  · simp [Int.compare_eq_lt.2 h, Int.le_of_lt h]
  · simp [h]
  · simp [Int.compare_eq_gt.2 h, h]

instance : Counting Value where
  lt_whole := lt_int
  le_whole := le_int
  add_whole _ _ := rfl
  sub_whole _ _ := rfl
  mul_whole _ _ := rfl
  horizon_whole _ := rfl

end Value

end Dichromat
