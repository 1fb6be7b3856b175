import Mathlib
import Dichromat.Color.Perception
import Dichromat.Proofs.Counting
import Dichromat.Proofs.Outcome

/-!
# Exact arithmetic

The real numbers as numbers that colours are made of. An operation is refused where it has no real
value: a division by zero, a fractional power of a negative number, the root of a negative number.
The lemmas evaluate formulas from the inside out.
-/

noncomputable section

namespace Dichromat

/-- The nearest integer; a half goes to the even neighbour. -/
def nearestEven (x : ℝ) : ℤ :=
  if Int.fract x < 1 / 2 then ⌊x⌋
  else if 1 / 2 < Int.fract x then ⌊x⌋ + 1
  else if ⌊x⌋ % 2 = 0 then ⌊x⌋
  else ⌊x⌋ + 1

/-- The integer part, toward zero. -/
def integerPart (x : ℝ) : ℤ := if 0 ≤ x then ⌊x⌋ else ⌈x⌉

instance : ColorArith ℝ where
  lt a b := .ok (decide (a < b))
  le a b := .ok (decide (a ≤ b))
  whole n := n
  ratio n d := n / d
  decimal digits places := OfScientific.ofScientific digits true places
  pi := Real.pi
  add a b := .ok (a + b)
  sub a b := .ok (a - b)
  mul a b := .ok (a * b)
  div a b := if b = 0 then .error .divisionByZero else .ok (a / b)
  pow a b :=
    if a = 0 ∧ b < 0 then .error .divisionByZero
    else if a < 0 ∧ Int.fract b ≠ 0 then .error .outsideDomain
    else .ok (a ^ b)
  neg a := .ok (-a)
  sqrt a := if a < 0 then .error .outsideDomain else .ok (Real.sqrt a)
  sin a := .ok (Real.sin a)
  cos a := .ok (Real.cos a)
  fract a := .ok (Int.fract a)
  real a := .ok a
  round a := .ok (nearestEven a)
  truncate a := .ok (integerPart a)
  same a b := decide (a = b)
  bounded _ := .ok true
  horizon a := ⌈a⌉₊
  shown _ := .ok "number"
  perception := Perception.standard ℝ

namespace Exact

/-! ### Numerals -/

-- Under names of their own, so that a formula with a numeral reads the same in every module.
scoped instance atLeastTwo_two : Nat.AtLeastTwo 2 := ⟨by decide⟩

scoped instance atLeastTwo_three : Nat.AtLeastTwo 3 := ⟨by decide⟩

scoped instance atLeastTwo_five : Nat.AtLeastTwo 5 := ⟨by decide⟩

scoped instance atLeastTwo_six : Nat.AtLeastTwo 6 := ⟨by decide⟩

scoped instance atLeastTwo_255 : Nat.AtLeastTwo 255 := ⟨by decide⟩

variable (a b : ℝ)

/-! ### Operations -/

@[simp] theorem lt_eq : Comparable.lt a b = .ok (decide (a < b)) := rfl
@[simp] theorem le_eq : Comparable.le a b = .ok (decide (a ≤ b)) := rfl
@[simp] theorem add_eq : Arith.add a b = .ok (a + b) := rfl
@[simp] theorem sub_eq : Arith.sub a b = .ok (a - b) := rfl
@[simp] theorem mul_eq : Arith.mul a b = .ok (a * b) := rfl
@[simp] theorem real_eq : Arith.real a = .ok a := rfl
@[simp] theorem round_eq : Arith.round a = .ok (nearestEven a) := rfl
@[simp] theorem bounded_eq : Arith.bounded a = .ok true := rfl
@[simp] theorem whole_eq (n : ℤ) : (Arith.whole n : ℝ) = n := rfl
@[simp] theorem ratio_eq (n : ℤ) (d : ℕ) : (Arith.ratio n d : ℝ) = n / d := rfl
@[simp] theorem horizon_eq : Arith.horizon a = ⌈a⌉₊ := rfl

@[simp] theorem decimal_zero : (Arith.decimal 0 0 : ℝ) = 0 := by
  show (OfScientific.ofScientific 0 true 0 : ℝ) = 0
  norm_num

@[simp] theorem decimal_one : (Arith.decimal 1 0 : ℝ) = 1 := by
  show (OfScientific.ofScientific 1 true 0 : ℝ) = 1
  norm_num

instance : Counting ℝ where
  lt_whole m n := by simp
  le_whole m n := by simp
  add_whole m n := by simp
  sub_whole m n := by simp
  mul_whole m n := by simp
  horizon_whole n := by rw [whole_eq, horizon_eq, Nat.ceil_intCast]

theorem not_le_zero {a : ℝ} (h : 0 < a) : Comparable.le a (Arith.whole 0) = .ok false := by
  rw [le_eq, whole_eq, Int.cast_zero, decide_eq_false (not_le.2 h)]

theorem scientific_zero : (0.0 : ℝ) = 0 := by norm_num

theorem scientific_one : (1.0 : ℝ) = 1 := by norm_num

theorem clamp_mem : min (max a 0) 1 ∈ Set.Icc (0 : ℝ) 1 :=
  ⟨le_min (le_max_right _ _) zero_le_one, min_le_right _ _⟩

theorem div_eq {b : ℝ} (h : b ≠ 0) : Arith.div a b = .ok (a / b) := if_neg h

theorem pow_eq {a b : ℝ} (ha : 0 ≤ a) (hb : 0 ≤ b) : Arith.pow a b = .ok (a ^ b) := by
  have h : (Arith.pow a b : Except Fault ℝ) =
      if a = 0 ∧ b < 0 then .error .divisionByZero
      else if a < 0 ∧ Int.fract b ≠ 0 then .error .outsideDomain
      else .ok (a ^ b) := rfl
  rw [h, if_neg fun h => absurd h.2 (not_lt.2 hb), if_neg fun h => absurd h.1 (not_lt.2 ha)]

theorem sqrt_eq {a : ℝ} (ha : 0 ≤ a) : Arith.sqrt a = .ok (Real.sqrt a) := if_neg (not_lt.2 ha)

/-! ### Formulas -/

@[simp] theorem calc_ofNat (n : ℕ) [n.AtLeastTwo] :
    (OfNat.ofNat n : Calc ℝ) = .ok (OfNat.ofNat n : ℝ) := rfl

@[simp] theorem calc_zero : (0 : Calc ℝ) = .ok 0 := congrArg Except.ok Int.cast_zero
@[simp] theorem calc_one : (1 : Calc ℝ) = .ok 1 := congrArg Except.ok Int.cast_one

@[simp] theorem calc_scientific (digits places : ℕ) :
    (OfScientific.ofScientific digits true places : Calc ℝ) =
      .ok (OfScientific.ofScientific digits true places : ℝ) := rfl

@[simp] theorem calc_add : (.ok a : Calc ℝ) + .ok b = .ok (a + b) := rfl
@[simp] theorem calc_sub : (.ok a : Calc ℝ) - .ok b = .ok (a - b) := rfl
@[simp] theorem calc_mul : (.ok a : Calc ℝ) * .ok b = .ok (a * b) := rfl
@[simp] theorem calc_neg : -(.ok a : Calc ℝ) = .ok (-a) := rfl
@[simp] theorem calc_lt : Calc.lt (.ok a : Calc ℝ) (.ok b) = .ok (decide (a < b)) := rfl
@[simp] theorem calc_le : Calc.le (.ok a : Calc ℝ) (.ok b) = .ok (decide (a ≤ b)) := rfl
@[simp] theorem calc_sin : Calc.sin (.ok a : Calc ℝ) = .ok (Real.sin a) := rfl
@[simp] theorem calc_cos : Calc.cos (.ok a : Calc ℝ) = .ok (Real.cos a) := rfl
@[simp] theorem calc_fract : Calc.fract (.ok a : Calc ℝ) = .ok (Int.fract a) := rfl
@[simp] theorem calc_pi : (Calc.pi : Calc ℝ) = .ok Real.pi := rfl
@[simp] theorem calc_whole (n : ℤ) : (Calc.whole n : Calc ℝ) = .ok (n : ℝ) := rfl
@[simp] theorem calc_ratio (n : ℤ) (d : ℕ) : (Calc.ratio n d : Calc ℝ) = .ok (n / d : ℝ) := rfl

@[simp] theorem calc_max : Calc.max (.ok a : Calc ℝ) (.ok b) = .ok (max a b) := by
  show (if decide (a < b) = true then Except.ok b else Except.ok a) = _
  rcases lt_or_ge a b with h | h
  · simp [h, h.le]
  · simp [not_lt.2 h, h]

@[simp] theorem calc_min : Calc.min (.ok a : Calc ℝ) (.ok b) = .ok (min a b) := by
  show (if decide (b < a) = true then Except.ok b else Except.ok a) = _
  rcases lt_or_ge b a with h | h
  · simp [h, h.le]
  · simp [not_lt.2 h, h]

theorem calc_div {b : ℝ} (h : b ≠ 0) : (.ok a : Calc ℝ) / .ok b = .ok (a / b) := div_eq a h

theorem calc_pow {a b : ℝ} (ha : 0 ≤ a) (hb : 0 ≤ b) :
    Calc.pow (.ok a : Calc ℝ) (.ok b) = .ok (a ^ b) := pow_eq ha hb

theorem calc_sqrt {a : ℝ} (ha : 0 ≤ a) : Calc.sqrt (.ok a : Calc ℝ) = .ok (Real.sqrt a) :=
  sqrt_eq ha

end Exact

end Dichromat

end
