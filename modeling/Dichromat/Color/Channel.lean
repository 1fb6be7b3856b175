import Dichromat.Arith

/-!
# Channels

The three primaries, triples of channel values, and the orders of the channels: by value
(`Triple.order`, with `Triple.lowest` and `Triple.highest` as its ends) and by the sector of the
rainbow wheel in which a hue lies (`hueOrder`).
-/

namespace Dichromat

/-- The primaries. -/
inductive Channel
  | red | green | blue
  deriving DecidableEq, Repr

namespace Channel

/-- The primaries in their order. -/
def all : List Channel := [red, green, blue]

/-- The place of a primary on the wheel, in thirds of a turn. -/
def index : Channel → Nat
  | red => 0
  | green => 1
  | blue => 2

/-- The other two primaries in rainbow order; red comes before green and after blue. -/
def anchors : Channel → Channel × Channel
  | red => (green, blue)
  | green => (blue, red)
  | blue => (red, green)

theorem fst_anchors_ne (k : Channel) : k.anchors.1 ≠ k := by cases k <;> decide

theorem snd_anchors_ne (k : Channel) : k.anchors.2 ≠ k := by cases k <;> decide

theorem fst_anchors_ne_snd (k : Channel) : k.anchors.1 ≠ k.anchors.2 := by cases k <;> decide

/-- A primary and its anchors are all the primaries. -/
theorem forall_of_anchors {P : Channel → Prop} (k : Channel) (h : P k) (h₁ : P k.anchors.1)
    (h₂ : P k.anchors.2) (l : Channel) : P l := by
  cases k <;> cases l <;> assumption

end Channel

/-- The channels by some order of their values. -/
structure Ranking where
  lowest : Channel
  middle : Channel
  highest : Channel
  deriving DecidableEq, Repr

/-- One value for each primary. -/
structure Triple (α : Type) where
  red : α
  green : α
  blue : α
  deriving DecidableEq, Repr, Inhabited

namespace Ranking

/-- The channels from the lowest to the highest. -/
def toList (r : Ranking) : List Channel := [r.lowest, r.middle, r.highest]

end Ranking

namespace Triple

variable {α β : Type}

/-- The same entry for each channel. -/
def replicate (x : α) : Triple α := ⟨x, x, x⟩

/-- The entry of a channel. -/
def get (t : Triple α) : Channel → α
  | .red => t.red
  | .green => t.green
  | .blue => t.blue

/-- Puts an entry in the place of that of a channel. -/
def set (t : Triple α) (k : Channel) (x : α) : Triple α :=
  match k with
  | .red => { t with red := x }
  | .green => { t with green := x }
  | .blue => { t with blue := x }

/-- A function of each entry. -/
def map (f : α → β) (t : Triple α) : Triple β := ⟨f t.red, f t.green, f t.blue⟩

/-- From red to blue; the first fault is the outcome. -/
def mapM (f : α → Except Fault β) (t : Triple α) : Except Fault (Triple β) := do
  let red ← f t.red
  let green ← f t.green
  let blue ← f t.blue
  return ⟨red, green, blue⟩

/-- The entries in the order of the channels. -/
def toList (t : Triple α) : List α := [t.red, t.green, t.blue]

/-- From red to blue; the first fault is the outcome. -/
@[inline] def ofTerms (term : Channel → Except Fault α) : Except Fault (Triple α) := do
  let red ← term .red
  let green ← term .green
  let blue ← term .blue
  return ⟨red, green, blue⟩

/-- A channel as a term of a formula. -/
@[inline] def term (t : Triple α) (k : Channel) : Calc α := .ok (t.get k)

/-- A channel of a list of values, which a short list may not have. -/
def termOf (values : List α) (k : Channel) : Calc α :=
  match values[k.index]? with
  | some x => .ok x
  | none => .error .outOfBounds

/-- The first three values of a list. -/
def ofList (values : List α) : Except Fault (Triple α) := ofTerms (termOf values)

theorem toList_inj {t u : Triple α} : t.toList = u.toList ↔ t = u := by
  cases t
  cases u
  simp [toList]

theorem exists_get_of_mem {t : Triple α} {x : α} (h : x ∈ t.toList) : ∃ k, t.get k = x := by
  simp only [toList, List.mem_cons, List.not_mem_nil, or_false] at h
  obtain rfl | rfl | rfl := h
  · exact ⟨.red, rfl⟩
  · exact ⟨.green, rfl⟩
  · exact ⟨.blue, rfl⟩

@[simp] theorem get_set_self (t : Triple α) (k : Channel) (x : α) : (t.set k x).get k = x := by
  cases k <;> rfl

theorem get_set_of_ne (t : Triple α) {k l : Channel} (x : α) (h : l ≠ k) :
    (t.set k x).get l = t.get l := by
  cases k <;> cases l <;> first | rfl | exact absurd rfl h

@[simp] theorem get_map (f : α → β) (t : Triple α) (k : Channel) :
    (t.map f).get k = f (t.get k) := by
  cases k <;> rfl

theorem ext_get {s t : Triple α} (h : ∀ k, s.get k = t.get k) : s = t := by
  rcases s with ⟨_, _, _⟩
  rcases t with ⟨_, _, _⟩
  exact Triple.mk.injEq .. ▸ ⟨h .red, h .green, h .blue⟩

/-! ### Order by value -/

section Order

variable [Comparable α]

open Comparable

/-- The channel of the lowest value, each channel being read when it is compared; of equal ones blue
before red before green. -/
@[inline] def lowestOf (term : Channel → Except Fault α) : Except Fault Channel := do
  if ← le (← term .red) (← term .green) then
    if ← lt (← term .red) (← term .blue) then return .red
  else
    if ← lt (← term .green) (← term .blue) then return .green
  return .blue

/-- The channel of the lowest value. -/
def lowest (t : Triple α) : Except Fault Channel := lowestOf t.term

/-- The channel of the highest value; of equal ones green before red before blue. -/
def highest (t : Triple α) : Except Fault Channel := do
  if ← lt t.green t.red then
    if ← le t.blue t.red then return .red
  else
    if ← le t.blue t.green then return .green
  return .blue

/-- The channels from the lowest value to the highest; of equal ones blue before red before
green. -/
def order (t : Triple α) : Except Fault Ranking := do
  if ← le t.red t.green then
    if ← lt t.green t.blue then return ⟨.red, .green, .blue⟩
    if ← lt t.red t.blue then return ⟨.red, .blue, .green⟩
    return ⟨.blue, .red, .green⟩
  if ← lt t.red t.blue then return ⟨.green, .red, .blue⟩
  if ← lt t.green t.blue then return ⟨.green, .blue, .red⟩
  return ⟨.blue, .green, .red⟩

end Order

end Triple

/-! ### Order by hue -/

section Hue

open Calc

variable {α : Type} [Arith α]

/-- The channels from the lowest value to the highest for a hue: six sectors of a sixth of a turn,
from red at 0 over green at a third and blue at two thirds. -/
def hueOrder (hue : α) : Except Fault Ranking := do
  let r : Calc α := hue
  if ← le r (ratio 2 6) then
    if ← lt r (ratio 1 6) then return ⟨.blue, .green, .red⟩
    return ⟨.blue, .red, .green⟩
  if ← le r (ratio 4 6) then
    if ← le r (ratio 3 6) then return ⟨.red, .blue, .green⟩
    return ⟨.red, .green, .blue⟩
  if ← lt r (ratio 5 6) then return ⟨.green, .red, .blue⟩
  return ⟨.green, .blue, .red⟩

end Hue

end Dichromat
