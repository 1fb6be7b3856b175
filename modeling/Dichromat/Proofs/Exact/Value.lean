import Dichromat.Palette
import Dichromat.Proofs.Exact.Arith
import Dichromat.Settings

/-!
# Values as real numbers

Truth values, whole numbers and floating-point numbers that are neither infinite nor "not a number"
are read as the real numbers that they are (`Value.exact`). Their order with whole numbers is that
of these (`Value.IsExact.le_int` and its neighbours), and checks of values compare with nothing but
whole numbers; so what passes such a check is in the same bounds when it is read.
-/

noncomputable section

namespace Dichromat

open scoped Exact

/-! ### Binary numbers -/

namespace Binary

/-- The real number that a binary number is. -/
def value (b : Binary) : ℝ := (if b.negative then -b.mantissa else b.mantissa : ℤ) * 2 ^ b.exponent

/-- A whole number is compared with a binary one as with the real number that it is. -/
theorem compareInt_eq (n : ℤ) (b : Binary) : compareInt n b = compare (n : ℝ) b.value := by
  -- both sides are scaled up until the exponent is no longer negative
  have hscale : (2 : ℝ) ^ b.exponent * 2 ^ (-b.exponent).toNat = 2 ^ b.exponent.toNat := by
    rw [← zpow_natCast, ← zpow_natCast, ← zpow_add₀ two_ne_zero]
    congr 1
    omega
  have hpos : (0 : ℝ) < 2 ^ (-b.exponent).toNat := pow_pos two_pos _
  let m : ℤ := if b.negative then -b.mantissa else b.mantissa
  have hvalue : b.value * 2 ^ (-b.exponent).toNat = m * 2 ^ b.exponent.toNat := by
    rw [value, mul_assoc, hscale]
  have hcompare : compareInt n b =
      compare (n * 2 ^ (-b.exponent).toNat) (m * 2 ^ b.exponent.toNat) := by
    have hpow (k : ℕ) : (twoTo k : ℤ) = 2 ^ k := Nat.cast_pow 2 k
    rw [compareInt, hpow, hpow]
    cases hnegative : b.negative <;> simp [m, hnegative]
  have hlt : n * 2 ^ (-b.exponent).toNat < m * 2 ^ b.exponent.toNat ↔ (n : ℝ) < b.value := by
    rw [← mul_lt_mul_iff_left₀ hpos, hvalue]
    exact_mod_cast Iff.rfl
  have heq : n * 2 ^ (-b.exponent).toNat = m * 2 ^ b.exponent.toNat ↔ (n : ℝ) = b.value := by
    rw [← mul_left_inj' hpos.ne', hvalue]
    exact_mod_cast Iff.rfl
  rw [hcompare]
  rcases lt_trichotomy (n : ℝ) b.value with h | h | h
  · rw [compare_lt_iff_lt.2 h, compare_lt_iff_lt.2 (hlt.2 h)]
  · rw [compare_eq_iff_eq.2 h, compare_eq_iff_eq.2 (heq.2 h)]
  · rw [compare_gt_iff_gt.2 h, compare_gt_iff_gt]
    exact lt_of_le_of_ne (not_lt.1 (mt hlt.1 h.not_gt)) fun hsame => h.ne' (heq.1 hsame.symm)

end Binary

/-! ### Values -/

namespace Value

/-- A real number among the values. -/
def IsExact : Value → Prop
  | .bool _ | .int _ => True
  | .float x => ∃ b, Binary.decode x = .finite b
  | _ => False

/-- The real number that a value is. -/
def exact : Value → ℝ
  | .bool b => if b then 1 else 0
  | .int n => n
  | .float x =>
    match Binary.decode x with
    | .finite b => b.value
    | _ => 0
  | _ => 0

theorem exact_float {x : Float} {b : Binary} (h : Binary.decode x = .finite b) :
    (Value.float x).exact = b.value := by
  simp only [exact, h]

/-! The order of a whole and a floating-point number decides every comparison of them. -/

theorem int_lt_float (n : ℤ) (x : Float) :
    Value.lt (.int n) (.float x) = .ok (compareIntFloat n x == some .lt) := rfl

theorem int_le_float (n : ℤ) (x : Float) : Value.le (.int n) (.float x) =
    .ok (compareIntFloat n x == some .lt || compareIntFloat n x == some .eq) := rfl

theorem float_le_int (x : Float) (n : ℤ) : Value.le (.float x) (.int n) = .ok
    ((compareIntFloat n x).map Ordering.swap == some .lt ||
      (compareIntFloat n x).map Ordering.swap == some .eq) := rfl

variable {v : Value}

/-- The order of a whole number and a real number among the values. -/
theorem IsExact.compares (hv : v.IsExact) (n : ℤ) :
    Value.lt (.int n) v = .ok (decide ((n : ℝ) < v.exact)) ∧
      Value.le (.int n) v = .ok (decide ((n : ℝ) ≤ v.exact)) ∧
      Value.le v (.int n) = .ok (decide (v.exact ≤ n)) := by
  have hint (m : ℤ) : Value.lt (.int n) (.int m) = .ok (decide ((n : ℝ) < m)) ∧
      Value.le (.int n) (.int m) = .ok (decide ((n : ℝ) ≤ m)) ∧
      Value.le (.int m) (.int n) = .ok (decide ((m : ℝ) ≤ n)) := by
    simp only [lt_int, le_int, Int.cast_lt, Int.cast_le, and_self]
  cases v with
  | bool b =>
    have hcast : (Value.bool b).exact = ((if b then 1 else 0 : ℤ) : ℝ) := by
      cases b <;> simp [exact]
    rw [hcast]
    exact hint _
  | int m => exact hint m
  | float x =>
    obtain ⟨b, hb⟩ := hv
    have horder : compareIntFloat n x = some (compare (n : ℝ) b.value) := by
      simp only [compareIntFloat, hb, Binary.compareInt_eq]
    rw [int_lt_float, int_le_float, float_le_int, horder, exact_float hb]
    rcases lt_trichotomy (n : ℝ) b.value with h | h | h
    · simp [compare_lt_iff_lt.2 h, h, h.le]
    · simp [h]
    · simp [compare_gt_iff_gt.2 h, h, h.le]
  | null | text | list | table | complex | moment => exact hv.elim

theorem IsExact.int_lt (hv : v.IsExact) (n : ℤ) :
    Value.lt (.int n) v = .ok (decide ((n : ℝ) < v.exact)) := (hv.compares n).1

theorem IsExact.int_le (hv : v.IsExact) (n : ℤ) :
    Value.le (.int n) v = .ok (decide ((n : ℝ) ≤ v.exact)) := (hv.compares n).2.1

theorem IsExact.le_int (hv : v.IsExact) (n : ℤ) :
    Value.le v (.int n) = .ok (decide (v.exact ≤ n)) := (hv.compares n).2.2

/-- What lies between two whole numbers is a real number. -/
theorem isExact_of_between (hreal : v.isReal = true) {m n : ℤ}
    (hlow : Value.le (.int m) v = .ok true) (hhigh : Value.le v (.int n) = .ok true) :
    v.IsExact := by
  cases v with
  | int => exact trivial
  | float x =>
    cases hx : Binary.decode x with
    | finite b => exact ⟨b, hx⟩
    | nan =>
      have hnone : compareIntFloat m x = none := by simp only [compareIntFloat, hx]
      rw [int_le_float, hnone] at hlow
      exact nomatch hlow
    | infinite negative =>
      have hbeyond (k : ℤ) : compareIntFloat k x = some (if negative then .gt else .lt) := by
        simp only [compareIntFloat, hx]
      rw [int_le_float, hbeyond] at hlow
      rw [float_le_int, hbeyond] at hhigh
      cases negative with
      | true => exact nomatch hlow
      | false => exact nomatch hhigh
  | null | bool | text | list | table | complex | moment => exact nomatch hreal

end Value

end Dichromat

end
