import Dichromat.Value.Shown
import Dichromat.Color.Perception
import Dichromat.Text.Number

/-!
# Arithmetic of values

Values as numbers: whole numbers stay exact, a real operand makes the result a floating-point
number, and a negative base with a fractional exponent gives a complex one, which has no order and
is no real number. Text and lists can be put together and repeated, as whole numbers can be added
and multiplied. Everything else is refused.
-/

namespace Dichromat.Value

/-! ### Operands -/

/-- A value as a number. -/
inductive Operand
  | int (n : Int)
  | float (x : Float)
  | complex (re im : Float)

/-- The number that a value is, if it is one. -/
def operand? : Value → Option Operand
  | bool b => some (.int (if b then 1 else 0))
  | int n => some (.int n)
  | float x => some (.float x)
  | complex re im => some (.complex re im)
  | _ => none

/-- The nearest floating-point number; too large a whole number has none. -/
def floatOfInt (n : Int) : Except Fault Float :=
  let x := Binary.ofInt n
  if x.isInf then .error .overflow else .ok x

/-- A real number as a floating-point number. -/
def Operand.toFloat : Operand → Except Fault Float
  | .int n => floatOfInt n
  | .float x => .ok x
  | .complex _ _ => .error .wrongKind

/-- The real and the imaginary part of a number. -/
def Operand.parts : Operand → Except Fault (Float × Float)
  | .complex re im => .ok (re, im)
  | x => x.toFloat.map (·, 0.0)

/-- The floating-point number that a value is. -/
def toFloat (v : Value) : Except Fault Float :=
  match v with
  | float x => .ok x
  | v =>
    match v.operand? with
    | some x => x.toFloat
    | none => .error .wrongKind

/-- An operation given for whole, real and complex numbers. -/
private def combine (onInt : Int → Int → Except Fault Value)
    (onFloat : Float → Float → Except Fault Value)
    (onComplex : Float × Float → Float × Float → Except Fault Value) (a b : Value) :
    Except Fault Value :=
  match a.operand?, b.operand? with
  | some (.int m), some (.int n) => onInt m n
  | some (.complex re im), some y => y.parts.bind fun q => onComplex (re, im) q
  | some x, some (.complex re im) => x.parts.bind fun p => onComplex p (re, im)
  | some x, some y => x.toFloat.bind fun p => y.toFloat.bind fun q => onFloat p q
  | _, _ => .error .wrongKind

/-! ### The four operations -/

/-- The sum of two values of any kinds. -/
private def addAny : Value → Value → Except Fault Value
  | text s, text t => .ok (text (s ++ t))
  | list xs, list ys => .ok (list (xs ++ ys))
  | a, b =>
    combine (fun m n => .ok (int (m + n))) (fun x y => .ok (float (x + y)))
      (fun p q => .ok (complex (p.1 + q.1) (p.2 + q.2))) a b

/-- The sum of two values; texts and lists are joined. -/
@[inline] def add (a b : Value) : Except Fault Value :=
  match a, b with
  | float x, float y => .ok (float (x + y))
  | a, b => addAny a b

/-- The difference of two values of any kinds. -/
private def subAny (a b : Value) : Except Fault Value :=
  combine (fun m n => .ok (int (m - n))) (fun x y => .ok (float (x - y)))
    (fun p q => .ok (complex (p.1 - q.1) (p.2 - q.2))) a b

/-- The difference of two values. -/
@[inline] def sub (a b : Value) : Except Fault Value :=
  match a, b with
  | float x, float y => .ok (float (x - y))
  | a, b => subAny a b

/-- A text or a list some times over. -/
private def repeated (n : Int) : Value → Except Fault Value
  | text s => .ok (text (String.join (List.replicate n.toNat s)))
  | list xs => .ok (list (List.replicate n.toNat xs).flatten)
  | _ => .error .wrongKind

/-- The product of two values of any kinds. -/
private def mulAny (a b : Value) : Except Fault Value :=
  match a.operand?, b.operand? with
  | none, some (.int n) => repeated n a
  | some (.int n), none => repeated n b
  | _, _ =>
    combine (fun m n => .ok (int (m * n))) (fun x y => .ok (float (x * y)))
      (fun p q => .ok (complex (p.1 * q.1 - p.2 * q.2) (p.1 * q.2 + p.2 * q.1))) a b

/-- The product of two values; a text or a list is repeated. -/
@[inline] def mul (a b : Value) : Except Fault Value :=
  match a, b with
  | float x, float y => .ok (float (x * y))
  | a, b => mulAny a b

/-- The quotient of two floating-point numbers. -/
@[inline] private def divFloat (x y : Float) : Except Fault Value :=
  if y == 0.0 then .error .divisionByZero else .ok (float (x / y))

/-- The floating-point number nearest to a quotient of whole numbers. -/
private def divInt (m n : Int) : Except Fault Value :=
  if n = 0 then .error .divisionByZero
  else
    let x := Binary.nearest m.natAbs n.natAbs
    if x.isInf then .error .overflow
    else .ok (float (if (m < 0) = (n < 0) then x else -x))

/-- Division of complex numbers, scaled by the larger part of the divisor. -/
private def divComplex (p q : Float × Float) : Except Fault Value :=
  if q.2.abs ≤ q.1.abs then
    if q.1.abs == 0.0 then .error .divisionByZero
    else
      let ratio := q.2 / q.1
      let scale := q.1 + q.2 * ratio
      .ok (complex ((p.1 + p.2 * ratio) / scale) ((p.2 - p.1 * ratio) / scale))
  else if q.1.abs ≤ q.2.abs then
    let ratio := q.1 / q.2
    let scale := q.1 * ratio + q.2
    .ok (complex ((p.1 * ratio + p.2) / scale) ((p.2 * ratio - p.1) / scale))
  else .ok (complex (0.0 / 0.0) (0.0 / 0.0))

/-- The quotient of two values of any kinds. -/
private def divAny (a b : Value) : Except Fault Value := combine divInt divFloat divComplex a b

/-- The quotient of two values. -/
@[inline] def div (a b : Value) : Except Fault Value :=
  match a, b with
  | float x, float y => divFloat x y
  | a, b => divAny a b

/-! ### Powers -/

/-- The floating-point number nearest to half a turn. -/
def piFloat : Float := 3.141592653589793

/-- A negative base to a fractional power. -/
private def powComplex (x y : Float) : Except Fault Value :=
  let radius := (-x).pow y
  let angle := y * piFloat
  let re := radius * angle.cos
  let im := radius * angle.sin
  if re.isInf || im.isInf then .error .overflow else .ok (complex re im)

/-- The power of two floating-point numbers, which may be complex. -/
def powFloat (x y : Float) : Except Fault Value :=
  if x == 0.0 && y < 0.0 then .error .divisionByZero
  else if x < 0.0 && x.isFinite && y.isFinite && y != y.floor then powComplex x y
  else
    let z := x.pow y
    if z.isInf && x.isFinite && y.isFinite then .error .overflow else .ok (float z)

/-- The power of two values. -/
@[inline] def pow (a b : Value) : Except Fault Value :=
  match a, b with
  | float x, float y => powFloat x y
  | a, b => do powFloat (← a.toFloat) (← b.toFloat)

/-! ### Functions of one number -/

/-- The opposite of a value. -/
def neg (a : Value) : Except Fault Value :=
  match a.operand? with
  | some (.int n) => .ok (int (-n))
  | some (.float x) => .ok (float (-x))
  | some (.complex re im) => .ok (complex (-re) (-im))
  | none => .error .wrongKind

/-- The part of a floating-point number above its floor. -/
private def fractFloat (x : Float) : Float :=
  if x.isFinite then
    let rest := if x < 0.0 then x - x.ceil else x - x.floor
    if rest == 0.0 then 0.0 else if rest < 0.0 then rest + 1.0 else rest
  else 0.0 / 0.0

/-- The part of a value above its floor. -/
def fract (a : Value) : Except Fault Value :=
  match a.operand? with
  | some (.int _) => .ok (int 0)
  | some (.float x) => .ok (float (fractFloat x))
  | _ => .error .wrongKind

/-- The square root of a value. -/
def sqrt (a : Value) : Except Fault Value := do
  let x ← a.toFloat
  if x < 0.0 then .error .outsideDomain else .ok (float x.sqrt)

/-- A periodic function, which has no value at infinity. -/
private def periodic (f : Float → Float) (a : Value) : Except Fault Value := do
  let x ← a.toFloat
  if x.isInf then .error .outsideDomain else .ok (float (f x))

/-- The sine of a value. -/
def sin : Value → Except Fault Value := periodic Float.sin

/-- The cosine of a value. -/
def cos : Value → Except Fault Value := periodic Float.cos

/-! ### Conversions -/

/-- A value as a floating-point number, read from text where it is text. -/
def real : Value → Except Fault Value
  | float x => .ok (float x)
  | text s => (Text.real s).map float
  | v => v.toFloat.map float

/-- A finite number as an integer, by some rounding. -/
private def toInteger (rounding : Binary → Int) (x : Float) : Except Fault Int :=
  match Binary.decode x with
  | .nan => .error .nanToInteger
  | .infinite _ => .error .overflow
  | .finite b => .ok (rounding b)

/-- The integer nearest to a value, a half to the even one. -/
def round (a : Value) : Except Fault Int :=
  match a.operand? with
  | some (.int n) => .ok n
  | some (.float x) => toInteger Binary.round x
  | _ => .error .wrongKind

/-- The integer part of a value, toward zero, read from text where it is text. -/
def truncate : Value → Except Fault Int
  | text s => Text.integer s
  | v =>
    match v.operand? with
    | some (.int n) => .ok n
    | some (.float x) => toInteger Binary.truncate x
    | _ => .error .wrongKind

/-! ### Order -/

/-- The order of two floating-point numbers, if both are numbers. -/
private def compareFloats (x y : Float) : Option Ordering :=
  if x < y then some .lt else if y < x then some .gt else if x == y then some .eq else none

/-- The order of a whole and a floating-point number, if the latter is a number. -/
def compareIntFloat (n : Int) (x : Float) : Option Ordering :=
  match Binary.decode x with
  | .nan => none
  | .infinite negative => some (if negative then .gt else .lt)
  | .finite b => some (Binary.compareInt n b)

/-- The order of two real numbers; a complex number has none. -/
def Operand.compare? : Operand → Operand → Except Fault (Option Ordering)
  | .int m, .int n => .ok (some (compare m n))
  | .int m, .float y => .ok (compareIntFloat m y)
  | .float x, .int n => .ok ((compareIntFloat n x).map Ordering.swap)
  | .float x, .float y => .ok (compareFloats x y)
  | _, _ => .error .wrongKind

/-- Whether two real numbers are equal. -/
private def sameReal (x y : Operand) : Bool :=
  match x.compare? y with
  | .ok order => order == some .eq
  | .error _ => false

/-- Whether two numbers are the same. -/
def Operand.same : Operand → Operand → Bool
  | .complex re im, .complex re' im' => re == re' && im == im'
  | .complex re im, y => im == 0.0 && sameReal y (.float re)
  | x, .complex re im => im == 0.0 && sameReal x (.float re)
  | x, y => sameReal x y

/-- Whether two values without elements are the same. -/
private def sameScalar (a b : Value) : Bool :=
  match a, b with
  | null, null => true
  | text s, text t => s == t
  | a, b =>
    match a.operand?, b.operand? with
    | some x, some y => x.same y
    | _, _ => false

mutual

/-- Equality: of numbers by their values, of lists item by item, of tables key by key. -/
def same : Value → Value → Bool
  | list xs, list ys => sameItems xs ys
  | table xs, table ys => xs.length == ys.length && sameEntries xs ys
  | a, b => sameScalar a b

/-- Whether two lists have the same elements. -/
private def sameItems : List Value → List Value → Bool
  | [], [] => true
  | x :: xs, y :: ys => same x y && sameItems xs ys
  | _, _ => false

/-- Whether the entries of a table are those of another. -/
private def sameEntries : List (String × Value) → List (String × Value) → Bool
  | [], _ => true
  | (k, x) :: rest, ys =>
    (match field? k ys with
    | some y => same x y
    | none => false) && sameEntries rest ys

end

/-- The order of two values without elements, if they have one. -/
private def compareScalars (a b : Value) : Except Fault (Option Ordering) :=
  match a, b with
  | text s, text t => .ok (some (compare s t))
  | a, b =>
    match a.operand?, b.operand? with
    | some x, some y => x.compare? y
    | _, _ => .error .wrongKind

mutual

/-- The order of two values, if they have one. -/
private def compareAny : Value → Value → Except Fault (Option Ordering)
  | list xs, list ys => compareItems xs ys
  | a, b => compareScalars a b

/-- The first items that differ decide; the beginning of a list comes before the list. -/
private def compareItems : List Value → List Value → Except Fault (Option Ordering)
  | [], [] => .ok (some .eq)
  | [], _ :: _ => .ok (some .lt)
  | _ :: _, [] => .ok (some .gt)
  | x :: xs, y :: ys => if same x y then compareItems xs ys else compareAny x y

end

/-- Whether one value is below another. -/
@[inline] def lt (a b : Value) : Except Fault Bool :=
  match a, b with
  | float x, float y => .ok (x < y)
  | a, b => (compareAny a b).map fun order => order == some .lt

/-- Whether one value is at most another. -/
@[inline] def le (a b : Value) : Except Fault Bool :=
  match a, b with
  | float x, float y => .ok (x ≤ y)
  | a, b => (compareAny a b).map fun order => order == some .lt || order == some .eq

/-- How many whole numbers from 0 on lie below a value. -/
def horizon (a : Value) : Nat :=
  match a.operand? with
  | some (.int n) => n.toNat
  | some (.float x) =>
    match Binary.decode x with
    | .finite b => (Binary.truncate b + 1).toNat
    | .infinite false => twoTo 64
    | _ => 0
  | _ => 0

instance : ColorArith Value where
  lt := lt
  le := le
  whole := int
  ratio n d := float (Float.ofInt n / Float.ofNat d)
  decimal digits places := float (Float.ofScientific digits true places)
  pi := float piFloat
  add := add
  sub := sub
  mul := mul
  div := div
  pow := pow
  neg := neg
  sqrt := sqrt
  sin := sin
  cos := cos
  fract := fract
  real := real
  round := round
  truncate := truncate
  same := same
  bounded a := lt a (float (1.0 / 0.0))
  horizon := horizon
  shown v := if v.isWritable then .ok v.shown else .error .unwritableInteger
  perception := (Perception.standard Float).map float

end Dichromat.Value
