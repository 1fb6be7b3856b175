import Dichromat.Value.Number
import Dichromat.Random.Twister
import Dichromat.Random.Digest

/-!
# Sources of random draws

A source is a sequence of numbers given in advance or a seeded generator; drawing from it gives a
number and the source that is left.
-/

namespace Dichromat

/-- A source of random numbers. -/
inductive Draws (α : Type)
  /-- The numbers from a place of a sequence on. -/
  | sequence (number : Nat → α) (next : Nat)
  | generator (g : Twister)

namespace Draws

variable {α : Type}

/-- The numbers of a list, again and again. -/
def cycle [Inhabited α] (numbers : List α) : Draws α :=
  .sequence (fun n => numbers.getD (n % numbers.length) default) 0

/-- The next number, with the draws that are left. -/
def draw [Arith α] : Draws α → α × Draws α
  | sequence number next => (number next, sequence number (next + 1))
  | generator g =>
    let (n, g) := g.unit
    (Arith.ratio n (twoTo 53), generator g)

/-- A floating-point seed as a number: the value modulo 2 ^ 61 - 1 with its sign, as 64 bits. -/
private def seedOfFloat (x : Float) : Int :=
  let signed := fun (negative : Bool) (n : Int) =>
    if negative then (if n = 1 then -2 else -n) % twoTo 64 else n
  match Binary.decode x with
  | .nan => 0
  | .infinite negative => signed negative 314159
  | .finite b => signed b.negative (b.mantissa * twoTo (b.exponent % 61).toNat % (twoTo 61 - 1))

/-- The source of a seed of bytes: the number that they and their digest stand for. -/
def ofBytes (bytes : List UInt8) : Draws α :=
  generator (Twister.ofSeed (Sha512.ofBigEndian (bytes ++ Sha512.digest bytes)))

/-- The source of a seed, for a text that of its bytes; without one, any source will do. -/
def ofSeed (seed : Value) : Except Fault (Draws α) :=
  match seed with
  | .null => .ok (generator (Twister.ofSeed 0))
  | .bool b => .ok (generator (Twister.ofSeed (if b then 1 else 0)))
  | .int n => .ok (generator (Twister.ofSeed n))
  | .float x => .ok (generator (Twister.ofSeed (seedOfFloat x)))
  | .text s => .ok (ofBytes s.toUTF8.toList)
  | _ => .error .wrongKind

/-- The source that is given, or else that of a seed. -/
def orSeed (draws? : Option (Draws α)) (seed : Value) : Except Fault (Draws α) :=
  match draws? with
  | some draws => .ok draws
  | none => ofSeed seed

end Draws

end Dichromat
