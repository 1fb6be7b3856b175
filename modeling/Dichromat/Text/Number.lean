import Dichromat.Decimal.Binary
import Dichromat.Fault
import Dichromat.Text.Character

/-!
# Numbers in text

Integers and real numbers as people write them: a sign, digits of any script with single
underscores between them, and white space around. A real number may have a point and an exponent,
and may be infinite or not a number. An integer has at most `digitLimit` digits.
-/

namespace Dichromat.Text

/-! ### Digits -/

/-- Digits with single underscores between them. -/
def digitsValue? (cs : List Char) : Option Nat :=
  let rec go (value : Nat) (afterDigit : Bool) : List Char → Option Nat
    | [] => if afterDigit then some value else none
    | '_' :: rest => if afterDigit then go value false rest else none
    | c :: rest =>
      match digit? c with
      | some d => go (value * 10 + d) true rest
      | none => none
  go 0 false cs

/-- The value and the number of some digits. -/
def digitsAndCount? (cs : List Char) : Option (Nat × Nat) :=
  (digitsValue? cs).map fun value => (value, (cs.filter (· != '_')).length)

/-- A sign and what follows it. -/
def splitSign : List Char → Bool × List Char
  | '-' :: rest => (true, rest)
  | '+' :: rest => (false, rest)
  | cs => (false, cs)

/-- White space around a number: the separators U+001C to U+001F do not count. -/
def isMargin (c : Char) : Bool := isBlank c && !(28 ≤ c.toNat && c.toNat ≤ 31)

/-- The characters of a text between its margins. -/
def trimmed (s : String) : List Char :=
  ((s.toList.dropWhile isMargin).reverse.dropWhile isMargin).reverse

/-! ### Integers -/

/-- Integers with more digits are neither read nor written. -/
def digitLimit : Nat := 4300

/-- The characters of an integer without its sign. -/
def isDigitOrUnderscore (c : Char) : Bool := c = '_' || (digit? c).isSome

/-- How many digits stand at the start, with single underscores between them. -/
def leadingDigits? (cs : List Char) : Option Nat :=
  let run := cs.takeWhile isDigitOrUnderscore
  (digitsValue? run).map fun _ => (run.filter (· != '_')).length

/-- The beginning of a text within quotes, as messages show one that is no integer. -/
private def quotedStart (s : String) : String := String.ofList ((quoted s).toList.take 200)

/-- The integer of a text. Too many digits at its start are refused whatever follows them. -/
def integer (s : String) : Except Fault Int :=
  let (negative, digits) := splitSign (trimmed s)
  let count := (leadingDigits? digits).getD 0
  if digitLimit < count then .error (.tooManyDigits count)
  else
    match digitsValue? digits with
    | some n => .ok (if negative then -(n : Int) else n)
    | none => .error (.notInteger (quotedStart s))

/-! ### Real numbers -/

/-- The number nearest to digits · 10 ^ exponent. As 10 lies between 2 ^ 3 and 2 ^ 4, one far out of
range is told from its size alone. -/
def decimalValue (digits : Nat) (exponent : Int) : Float :=
  let size : Int := Nat.log2 digits
  if digits = 0 then 0.0
  else if 1100 < size + min (exponent * 3) (exponent * 4) then 1.0 / 0.0
  else if size + max (exponent * 3) (exponent * 4) < -1200 then 0.0
  else Binary.nearest (digits * tenTo exponent.toNat) (tenTo (-exponent).toNat)

/-- Digits, perhaps none, before or behind a point. -/
def partDigits? (cs : List Char) : Option (Nat × Nat) :=
  if cs.isEmpty then some (0, 0) else digitsAndCount? cs

/-- An unsigned number with an optional point. -/
def mantissa? (cs : List Char) : Option (Nat × Nat) := do
  let whole := cs.takeWhile (· != '.')
  let (n, count) ← partDigits? whole
  let (fraction, places) ← partDigits? (cs.drop (whole.length + 1))
  if count + places = 0 then none
  else some (n * tenTo places + fraction, places)

/-- The exponent that characters give. -/
def exponent? (cs : List Char) : Option Int := do
  let (negative, digits) := splitSign cs
  let n ← digitsValue? digits
  return if negative then -(n : Int) else n

/-- The real number that characters without a sign give. -/
def unsigned? (cs : List Char) : Option Float := do
  let lower := String.ofList (cs.map Char.toLower)
  if lower = "inf" ∨ lower = "infinity" then return 1.0 / 0.0
  if lower = "nan" then return 0.0 / 0.0
  let mantissa := cs.takeWhile fun c => c != 'e' && c != 'E'
  let (digits, places) ← mantissa? mantissa
  let exponent ← if mantissa.length = cs.length then some 0
    else exponent? (cs.drop (mantissa.length + 1))
  return decimalValue digits (exponent - places)

/-- The real number that a text gives, if it does. -/
def real? (s : String) : Option Float := do
  let (negative, rest) := splitSign (trimmed s)
  let x ← unsigned? rest
  return if negative then -x else x

/-- The real number of a text. -/
def real (s : String) : Except Fault Float :=
  match real? s with
  | some x => .ok x
  | none => .error (.notReal (quoted s))

end Dichromat.Text
