import Dichromat.Decimal.Binary
import Dichromat.Fault

/-!
# Arithmetic that can be refused

The colour model and the search are written once, for any type of numbers with the operations of
`Arith`. Each operation may be refused with a `Fault`; a formula over such operations is a `Calc`,
written with the usual signs and evaluated from left to right, so that its first fault is its
outcome. `Update` is a computation that changes a state in place: what it changed before a fault
stays changed.
-/

namespace Dichromat

/-- Values that can be compared, if they are of kinds that have an order. -/
class Comparable (α : Type) where
  lt : α → α → Except Fault Bool
  le : α → α → Except Fault Bool

/-- Numbers with operations that can be refused. -/
class Arith (α : Type) extends Comparable α where
  /-- A whole number. -/
  whole : Int → α
  /-- A quotient as a real number; the denominator is positive. -/
  ratio : Int → Nat → α
  /-- A number in decimal notation: its digits over a power of ten. -/
  decimal : Nat → Nat → α
  pi : α
  add : α → α → Except Fault α
  sub : α → α → Except Fault α
  mul : α → α → Except Fault α
  div : α → α → Except Fault α
  pow : α → α → Except Fault α
  neg : α → Except Fault α
  sqrt : α → Except Fault α
  sin : α → Except Fault α
  cos : α → Except Fault α
  /-- The part of a number above its floor. -/
  fract : α → Except Fault α
  /-- The number as a real number, read from text where it is text. -/
  real : α → Except Fault α
  /-- The nearest integer; a half goes to the even neighbour. -/
  round : α → Except Fault Int
  /-- The integer part, toward zero. -/
  truncate : α → Except Fault Int
  /-- Equality, which no kind of value refuses. -/
  same : α → α → Bool
  /-- Whether a value lies below infinity. -/
  bounded : α → Except Fault Bool
  /-- How many of 0, 1, 2, … lie below a limit, or more. -/
  horizon : α → Nat
  /-- The text of a value in messages. -/
  shown : α → Except Fault String

/-- The outcome of a formula. -/
abbrev Calc (α : Type) := Except Fault α

namespace Calc

variable {α : Type} [Arith α]

instance : Coe α (Calc α) := ⟨Except.ok⟩

/-- An operation on two outcomes; the first fault is the outcome. -/
@[inline] def map₂ {β γ : Type} (f : α → β → Except Fault γ) (x : Except Fault α)
    (y : Except Fault β) : Except Fault γ :=
  match x with
  | .error e => .error e
  | .ok a =>
    match y with
    | .error e => .error e
    | .ok b => f a b

@[inline] instance : Add (Calc α) := ⟨map₂ Arith.add⟩
@[inline] instance : Sub (Calc α) := ⟨map₂ Arith.sub⟩
@[inline] instance : Mul (Calc α) := ⟨map₂ Arith.mul⟩
@[inline] instance : Div (Calc α) := ⟨map₂ Arith.div⟩
@[inline] instance : Neg (Calc α) := ⟨fun x => x.bind Arith.neg⟩
@[inline] instance (n : Nat) : OfNat (Calc α) n := ⟨.ok (Arith.whole n)⟩
@[inline] instance : OfScientific (Calc α) :=
  ⟨fun digits negative places =>
    .ok (if negative then Arith.decimal digits places
      else Arith.decimal (digits * tenTo places) 0)⟩

/-- A power. -/
@[inline] def pow (x y : Calc α) : Calc α := map₂ Arith.pow x y

/-- Whether one number is below another. -/
@[inline] def lt (x y : Calc α) : Except Fault Bool := map₂ Comparable.lt x y

/-- Whether one number is at most another. -/
@[inline] def le (x y : Calc α) : Except Fault Bool := map₂ Comparable.le x y

/-- The square root. -/
@[inline] def sqrt (x : Calc α) : Calc α := x.bind Arith.sqrt

/-- The sine. -/
@[inline] def sin (x : Calc α) : Calc α := x.bind Arith.sin

/-- The cosine. -/
@[inline] def cos (x : Calc α) : Calc α := x.bind Arith.cos

/-- The part of a number above its floor. -/
@[inline] def fract (x : Calc α) : Calc α := x.bind Arith.fract

/-- Half a turn. -/
@[inline] def pi : Calc α := .ok Arith.pi

/-- A quotient of whole numbers. -/
@[inline] def ratio (n : Int) (d : Nat) : Calc α := .ok (Arith.ratio n d)

/-- A whole number. -/
@[inline] def whole (n : Int) : Calc α := .ok (Arith.whole n)

/-- The first of two values unless the second is above it. -/
@[inline] def max (x y : Calc α) : Calc α :=
  map₂ (fun a b => do if ← Comparable.lt a b then return b else return a) x y

/-- The first of two values unless the second is below it. -/
@[inline] def min (x y : Calc α) : Calc α :=
  map₂ (fun a b => do if ← Comparable.lt b a then return b else return a) x y

end Calc

/-- A computation that changes a state and keeps what it changed when it is refused. -/
abbrev Update (σ β : Type) := ExceptT Fault (StateM σ) β

namespace Update

variable {σ β : Type}

/-- The outcome and the state left behind. -/
@[inline] def runOn (u : Update σ β) (s : σ) : Except Fault β × σ := StateT.run (ExceptT.run u) s

/-- The state reached, where nothing was refused. -/
@[inline] def apply (u : Update σ Unit) (s : σ) : Except Fault σ :=
  match u.runOn s with
  | (.ok _, t) => .ok t
  | (.error e, _) => .error e

end Update

end Dichromat
