import Dichromat.Decimal.Binary

/-!
# The Mersenne twister

A generator of 32-bit words with 624 words of state, seeded with the words of a number.
`Twister.unit` draws a number from 0 to 1 as a multiple of 2 ^ -53.
-/

namespace Dichromat

/-- A generator of random words. -/
structure Twister where
  words : Array UInt32
  /-- The place of the next word; from `words.size` on the state is renewed first. -/
  next : Nat

namespace Twister

/-- The words of the state. -/
def size : Nat := 624

/-- A word of an array. -/
private def word (a : Array UInt32) (i : Nat) : UInt32 := a.getD i 0

/-! ### Seeding -/

/-- The state that one word spreads out to. -/
def spread (seed : UInt32) : Array UInt32 :=
  (List.range (size - 1)).foldl
    (fun a i =>
      let last := word a i
      a.push ((last ^^^ (last >>> 30)) * 1812433253 + (i + 1).toUInt32))
    #[seed]

/-- A place and the state while a key is mixed in; past the last place the walk goes on at 1, with
the last word also at 0. -/
private def advance (a : Array UInt32) (i : Nat) : Array UInt32 × Nat :=
  if size ≤ i + 1 then (a.setIfInBounds 0 (word a (size - 1)), 1) else (a, i + 1)

/-- Mixes the words of a key into the state, some times from a place on. -/
private def mixKey (key : Array UInt32) : Nat → Array UInt32 → Nat → Nat → Array UInt32 × Nat
  | 0, a, i, _ => (a, i)
  | n + 1, a, i, j =>
    let last := word a (i - 1)
    let x := (word a i ^^^ ((last ^^^ (last >>> 30)) * 1664525)) + word key j + j.toUInt32
    let (a, i) := advance (a.setIfInBounds i x) i
    mixKey key n a i (if key.size ≤ j + 1 then 0 else j + 1)

/-- Mixes the places into the state, some times from one on. -/
private def mixIndex : Nat → Array UInt32 → Nat → Array UInt32
  | 0, a, _ => a
  | n + 1, a, i =>
    let last := word a (i - 1)
    let x := (word a i ^^^ ((last ^^^ (last >>> 30)) * 1566083941)) - i.toUInt32
    let (a, i) := advance (a.setIfInBounds i x) i
    mixIndex n a i

/-- The generator of a key of words. -/
def ofKey (key : Array UInt32) : Twister :=
  let (a, i) := mixKey key (max size key.size) (spread 19650218) 1 0
  let a := mixIndex (size - 1) a i
  { words := a.setIfInBounds 0 0x80000000, next := size }

/-- The words of a number, the lowest first; at least one. -/
def keyOfNat (n : Nat) : Array UInt32 :=
  let count := max 1 ((Nat.log2 n + 32) / 32)
  ((List.range count).map fun i => (n >>> (32 * i)).toUInt32).toArray

/-- The generator of a seed; its sign does not count. -/
def ofSeed (seed : Int) : Twister := ofKey (keyOfNat seed.natAbs)

/-! ### Drawing -/

/-- All words of the next state. -/
private def renew (a : Array UInt32) : Array UInt32 :=
  (List.range size).foldl
    (fun a i =>
      let y := (word a i &&& 0x80000000) ||| (word a ((i + 1) % size) &&& 0x7FFFFFFF)
      let z := word a ((i + 397) % size) ^^^ (y >>> 1)
      a.setIfInBounds i (if y &&& 1 = 0 then z else z ^^^ 0x9908B0DF))
    a

/-- The word that is given for one of the state. -/
private def temper (y : UInt32) : UInt32 :=
  let y := y ^^^ (y >>> 11)
  let y := y ^^^ ((y <<< 7) &&& 0x9D2C5680)
  let y := y ^^^ ((y <<< 15) &&& 0xEFC60000)
  y ^^^ (y >>> 18)

/-- The next word, with the generator behind it. -/
def draw (g : Twister) : UInt32 × Twister :=
  let g := if size ≤ g.next then { words := renew g.words, next := 0 } else g
  (temper (word g.words g.next), { g with next := g.next + 1 })

/-- A draw from 0 to 1: the numerator of a fraction over 2 ^ 53. -/
def unit (g : Twister) : Nat × Twister :=
  let (high, g) := g.draw
  let (low, g) := g.draw
  ((high >>> 5).toNat * twoTo 26 + (low >>> 6).toNat, g)

end Twister

end Dichromat
