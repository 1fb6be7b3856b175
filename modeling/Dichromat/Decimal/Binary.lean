/-!
# Binary numbers

A floating-point number is a sign and a whole multiple of a power of two. `Binary.decode` takes
one apart, `Binary.nearest` puts together the one nearest to a quotient, and `roundDiv` is the
rounding that all of this module and the decimal notations share: a half goes to the even
neighbour.
-/

namespace Dichromat

/-- A power of two, the unit of binary notation. -/
def twoTo (n : Nat) : Nat := Nat.pow 2 n

/-- A power of ten, the unit of decimal notation. -/
def tenTo (n : Nat) : Nat := Nat.pow 10 n

/-- The quotient rounded to the nearest integer, a half to the even one. -/
def roundDiv (num den : Nat) : Nat :=
  let q := num / den
  let r := num % den
  if 2 * r < den then q
  else if den < 2 * r then q + 1
  else if q % 2 = 0 then q else q + 1

/-- The number mantissa · 2 ^ exponent with a sign. -/
structure Binary where
  negative : Bool
  mantissa : Nat
  exponent : Int
  deriving DecidableEq, Repr

namespace Binary

/-- What a floating-point number is. -/
inductive Decoded
  | nan
  | infinite (negative : Bool)
  | finite (b : Binary)

/-- Takes a floating-point number apart. -/
def decode (x : Float) : Decoded :=
  let bits := x.toBits.toNat
  let negative := bits / twoTo 63 == 1
  let exponent : Nat := bits / twoTo 52 % 2048
  let fraction := bits % twoTo 52
  if exponent = 2047 then if fraction = 0 then .infinite negative else .nan
  else if exponent = 0 then .finite ⟨negative, fraction, -1074⟩
  else .finite ⟨negative, fraction + twoTo 52, (exponent : Int) - 1075⟩

/-- Numerator and denominator of the absolute value times a power of ten. -/
def scaled (b : Binary) (power : Int) : Nat × Nat :=
  (b.mantissa * twoTo b.exponent.toNat * tenTo power.toNat,
    twoTo (-b.exponent).toNat * tenTo (-power).toNat)

/-- The floating-point number nearest to a positive quotient, infinite where that is out of
range. -/
def nearest (num den : Nat) : Float :=
  if num = 0 then 0.0
  else
    let estimate : Int := (Nat.log2 num : Int) - Nat.log2 den - 52
    let quotient := fun e : Int => roundDiv (num * twoTo (-e).toNat) (den * twoTo e.toNat)
    let e := if num * twoTo (-estimate).toNat < twoTo 52 * (den * twoTo estimate.toNat)
      then estimate - 1 else estimate
    let e := max e (-1074)
    let bits := (e + 1074).toNat * twoTo 52 + quotient e
    if bits < 2047 * twoTo 52 then Float.ofBits bits.toUInt64 else 1.0 / 0.0

/-- The floating-point number nearest to an integer. -/
def ofInt (n : Int) : Float :=
  if n.natAbs < twoTo 53 then Float.ofInt n
  else
    let x := nearest n.natAbs 1
    if n < 0 then -x else x

/-- The integer part toward zero. -/
def truncate (b : Binary) : Int :=
  let n := (b.mantissa * twoTo b.exponent.toNat) / twoTo (-b.exponent).toNat
  if b.negative then -n else n

/-- The nearest integer, a half to the even one. -/
def round (b : Binary) : Int :=
  let n := roundDiv (b.mantissa * twoTo b.exponent.toNat) (twoTo (-b.exponent).toNat)
  if b.negative then -n else n

/-- The order of an integer and a binary number. -/
def compareInt (n : Int) (b : Binary) : Ordering :=
  let m : Int := b.mantissa * twoTo b.exponent.toNat
  compare (n * twoTo (-b.exponent).toNat) (if b.negative then -m else m)

end Binary

end Dichromat
