import Dichromat.Decimal.Binary

/-!
# Decimal notations of floating-point numbers

`Decimal.scientific` writes a number with one digit before the point and a fixed number behind it,
`Decimal.fixed` with a fixed number of places, and `Decimal.shortest` with the fewest digits that
read back as the same number, positional where the decimal exponent is from -4 to 15. All round
the exact binary value.
-/

namespace Dichromat.Decimal

/-- The digits of a number, filled up with zeros on the left. -/
def padded (width n : Nat) : String :=
  let digits := toString n
  String.ofList (List.replicate (width - digits.length) '0') ++ digits

/-- A text with the sign in front of it. -/
private def signed (negative : Bool) (s : String) : String := if negative then "-" ++ s else s

/-- An exponent with its sign and at least two digits. -/
def exponentText (e : Int) : String :=
  (if e < 0 then "-" else "+") ++ padded 2 e.natAbs

/-- The exponent of the leading decimal digit of a positive quotient. -/
def leadingExponent (num den : Nat) : Int :=
  let bits : Int := (Nat.log2 num : Int) - Nat.log2 den
  let estimate := bits * 30103 / 100000
  let reaches := fun e : Int => den * tenTo e.toNat ≤ num * tenTo (-e).toNat
  if reaches (estimate + 1) then estimate + 1
  else if reaches estimate then estimate
  else estimate - 1

/-! ### Fixed numbers of digits -/

/-- The text of a number, given that of finite ones. -/
private def specials (x : Float) (finite : Binary → String) : String :=
  match Binary.decode x with
  | .nan => "nan"
  | .infinite negative => signed negative "inf"
  | .finite b => finite b

/-- One digit, a point, `places` digits, and the exponent. -/
def scientificDigits (places : Nat) (b : Binary) : String :=
  if b.mantissa = 0 then
    signed b.negative ("0." ++ padded places 0 ++ "e+00")
  else
    let (num, den) := b.scaled 0
    let e := leadingExponent num den
    let (num, den) := b.scaled (places - e)
    let digits := roundDiv num den
    let (digits, e) := if digits = tenTo (places + 1) then (digits / 10, e + 1) else (digits, e)
    signed b.negative (toString (digits / tenTo places) ++ "." ++
      padded places (digits % tenTo places) ++ "e" ++ exponentText e)

/-- A number with one digit before the point and some behind it, and an exponent. -/
def scientific (places : Nat) (x : Float) : String := specials x (scientificDigits places)

/-- A finite number with some digits behind the point. -/
def fixedDigits (places : Nat) (b : Binary) : String :=
  let (num, den) := b.scaled places
  let digits := roundDiv num den
  signed b.negative
    (toString (digits / tenTo places) ++ "." ++ padded places (digits % tenTo places))

/-- A number with some digits behind the point. -/
def fixed (places : Nat) (x : Float) : String := specials x (fixedDigits places)

/-! ### The shortest digits that read back -/

/-- Whether digits · 10 ^ power rounds to the number: it lies between the halfway points to the
two neighbours, or on one of them if the mantissa is even. -/
def readsBack (b : Binary) (digits : Nat) (power : Int) : Bool :=
  let unit := b.exponent - 2
  let narrow := b.mantissa = twoTo 52 ∧ -1074 < b.exponent
  let low := 4 * b.mantissa - (if narrow then 1 else 2)
  let high := 4 * b.mantissa + 2
  let value := digits * tenTo power.toNat * twoTo (-unit).toNat
  let scale := tenTo (-power).toNat * twoTo unit.toNat
  if b.mantissa % 2 = 0 then low * scale ≤ value ∧ value ≤ high * scale
  else low * scale < value ∧ value < high * scale

/-- The candidate with `count` digits: the one of the two neighbours on that decimal grid that
reads back, the nearer one if both do. -/
def candidate (b : Binary) (leading : Int) (count : Nat) : Option (Nat × Int) :=
  let power := leading - (count - 1 : Nat)
  let (num, den) := b.scaled (-power)
  let nearest := roundDiv num den
  let below := num / den
  let other := if nearest = below then below + 1 else below
  if readsBack b nearest power then some (nearest, power)
  else if readsBack b other power then some (other, power)
  else none

/-- The digits and the power of ten of the shortest notation of a number that is not zero. -/
def shortestDigits (b : Binary) : Nat × Int :=
  let (num, den) := b.scaled 0
  let leading := leadingExponent num den
  ((List.range 17).findSome? fun i => candidate b leading (i + 1)).getD (0, 0)

/-- Digits without the zeros at their end. -/
def dropZeros : List Char → List Char := fun s => (s.reverse.dropWhile (· == '0')).reverse

/-- A mantissa with a point behind its first digit, if there are more. -/
private def mantissaText (digits : List Char) : String :=
  match digits with
  | [] => "0"
  | [d] => String.ofList [d]
  | d :: rest => String.ofList (d :: '.' :: rest)

/-- Digits d₁d₂… with the first one standing for 10 ^ leading. -/
private def positional (digits : List Char) (leading : Int) : String :=
  if leading < 0 then
    "0." ++ String.ofList (List.replicate ((-leading).toNat - 1) '0' ++ digits)
  else
    let whole := leading.toNat + 1
    let before := digits.take whole ++ List.replicate (whole - digits.length) '0'
    let behind := digits.drop whole
    String.ofList before ++ "." ++ (if behind.isEmpty then "0" else String.ofList behind)

/-- A finite number with as few digits as read back as the same. -/
def shortestText (b : Binary) : String :=
  if b.mantissa = 0 then signed b.negative "0.0"
  else
    let (digits, power) := shortestDigits b
    let text := (toString digits).toList
    let leading := power + (text.length - 1 : Nat)
    let digits := dropZeros text
    signed b.negative
      (if -4 ≤ leading ∧ leading < 16 then positional digits leading
        else mantissaText digits ++ "e" ++ exponentText leading)

/-- A number with as few digits as read back as the same. -/
def shortest (x : Float) : String := specials x shortestText

end Dichromat.Decimal
