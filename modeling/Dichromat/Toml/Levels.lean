import Dichromat.Toml.Text
import Dichromat.Toml.Scalar

/-!
# Levels of nesting

Values may be nested in a limited number of levels. Reading a value takes some levels below its own
place, as many as its text asks for: an escape in a string takes more than the string, and a
mistake takes more than what is well formed. `valueLevels`, `keyLevels` and `gapLevels` tell the
levels of a value without those nested in it, of a key in an inline table, and of white space and
comments in an array.
-/

namespace Dichromat.Toml

/-- The levels of a mistake that is found so far down: its place is looked up, which takes one more
unless it is the end of the text. -/
def mistakeLevels (down : Nat) (rest : List Char) : Nat :=
  if rest.isEmpty then down + 1 else down + 2

/-! ### Strings -/

/-- The levels of a character given by its number. -/
def hexLevels (down count : Nat) (cs : List Char) : Nat :=
  let digits := cs.take count
  if digits.length = count && digits.all fun c => (hexDigit? c).isSome then
    if (hexChar count cs).isSome then down + 1 else mistakeLevels down (cs.drop count)
  else mistakeLevels down cs

/-- The levels of what stands behind a backslash. -/
def escapeLevels (down : Nat) : List Char → Nat
  | 'u' :: rest => hexLevels (down + 1) 4 rest
  | 'U' :: rest => hexLevels (down + 1) 8 rest
  | c :: rest => if (escape [c]).isSome then down - 1 else mistakeLevels down rest
  | [] => mistakeLevels down []

/-- The levels of the rest of a string in double quotes on one line. -/
def basicLevels : List Char → Nat
  | '"' :: _ => 1
  | ['\\'] => escapeLevels 3 []
  | '\\' :: c :: rest =>
    max (escapeLevels 3 (c :: rest)) (if (escape (c :: rest)).isSome then basicLevels rest else 0)
  | c :: rest => if isControl c then mistakeLevels 2 (c :: rest) else basicLevels rest
  | [] => mistakeLevels 2 []

/-- The levels of the rest of a string in three double quotes. -/
def multilineLevels : List Char → Nat
  | '"' :: '"' :: '"' :: _ => 2
  | ['\\'] => escapeLevels 4 []
  | '\\' :: c :: rest =>
    if isSpaceOrNewline c then
      if (lineContinuation (c :: rest)).isSome then max 4 (multilineLevels rest)
      else mistakeLevels 4 (c :: rest)
    else
      max (escapeLevels 4 (c :: rest))
        (if (escape (c :: rest)).isSome then multilineLevels rest else 0)
  | c :: rest =>
    if isControl c && c != '\n' then mistakeLevels 2 (c :: rest) else multilineLevels rest
  | [] => mistakeLevels 2 []

/-- The levels of a string in single quotes, by whether it ends and what it was read as. -/
private def quotedLevels (ends : Bool) (reading : Option (String × List Char))
    (cs : List Char) : Nat :=
  if reading.isSome then 2 else mistakeLevels 2 (if ends then cs else [])

/-- The levels of the rest of a string in single quotes on one line. -/
def literalLevels (cs : List Char) : Nat := quotedLevels (cs.contains '\'') (literalString cs) cs

/-- Whether a string in three single quotes ends. -/
private def hasThreeQuotes : List Char → Bool
  | '\'' :: '\'' :: '\'' :: _ => true
  | _ :: rest => hasThreeQuotes rest
  | [] => false

/-- The levels of the rest of a string in three single quotes. -/
def multilineLiteralLevels (cs : List Char) : Nat :=
  quotedLevels (hasThreeQuotes cs) (multilineLiteral [] (dropNewline cs)) cs

/-! ### Values -/

/-- Whether a date and time with the offset of a zone starts here. -/
def hasOffset (cs : List Char) : Bool :=
  match date cs, cs.drop 10 with
  | .none, _ => false
  | _, c :: rest =>
    if c = 'T' ∨ c = 't' ∨ c = ' ' then
      match clock rest with
      | some ('+' :: rest) | some ('-' :: rest) => (hourMinute rest).isSome
      | _ => false
    else false
  | _, [] => false

/-- The levels of a truth value, a date or time, or a number. -/
def scalarLevels (cs : List Char) : Nat :=
  if hasOffset cs then 3
  else
    match scalar cs with
    | .ok (.bool _, _) => 0
    | .ok _ => if (specialFloat cs).isSome then 0 else 1
    | .error .malformed => mistakeLevels 0 cs
    | .error _ => 1

/-- The levels of white space and comments in an array; `fuel` bounds the comments. -/
def gapLevels : Nat → List Char → Nat
  | 0, _ => 2
  | fuel + 1, cs =>
    match cs.dropWhile isSpaceOrNewline with
    | '#' :: rest =>
      match skipComment ('#' :: rest) with
      | some rest => max 4 (gapLevels fuel rest)
      | none => mistakeLevels 4 rest
    | _ => 2

/-- The levels of a value without those of the values in it. -/
def valueLevels : List Char → Nat
  | '"' :: '"' :: '"' :: rest => multilineLevels rest
  | '"' :: rest => basicLevels rest
  | '\'' :: '\'' :: '\'' :: rest => multilineLiteralLevels rest
  | '\'' :: rest => literalLevels rest
  | '[' :: rest => gapLevels rest.length rest
  | '\x7b' :: _ => 2
  | cs => scalarLevels cs

/-! ### Keys -/

/-- The levels of one part of a key. -/
def keyPartLevels (cs : List Char) : Nat :=
  match cs with
  | '"' :: rest => 4 + basicLevels rest
  | '\'' :: rest => 4 + literalLevels rest
  | cs => if (keyPart cs).isSome then 4 else mistakeLevels 4 cs

/-- The levels of a key below the inline table that it stands in; `fuel` bounds its parts. -/
def keyLevels : Nat → List Char → Nat
  | 0, _ => 0
  | fuel + 1, cs =>
    match keyPart cs with
    | none => keyPartLevels cs
    | some (_, rest) =>
      match skipSpace rest with
      | '.' :: rest => max (keyPartLevels cs) (keyLevels fuel (skipSpace rest))
      | _ => keyPartLevels cs

end Dichromat.Toml
