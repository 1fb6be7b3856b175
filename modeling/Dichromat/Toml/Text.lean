import Dichromat.Fault

/-!
# Text in TOML

White space, comments, the four kinds of strings, and keys: a key is bare, or a string on one line,
and a dotted key has several such parts. A `Reader` takes the characters that are left and gives
what it read with the characters behind it, or nothing where the text is malformed. A `Parse` does
the same for what can also be too much to read.
-/

namespace Dichromat.Toml

/-- Reads the characters at the front, if they are well formed. -/
abbrev Reader (β : Type) := List Char → Option (β × List Char)

/-- Reads the characters at the front, or tells what is wrong with them. -/
abbrev Parse (β : Type) := List Char → Except Fault (β × List Char)

/-- What was read; nothing means that the text is malformed. -/
def required {β : Type} : Option β → Except Fault β
  | some x => .ok x
  | none => .error .malformed

/-! ### White space and comments -/

/-- White space within a line. -/
def isSpace (c : Char) : Bool := c == ' ' || c == '\t'

/-- White space. -/
def isSpaceOrNewline (c : Char) : Bool := isSpace c || c == '\n'

/-- Control characters other than the tab. -/
def isControl (c : Char) : Bool := (c.toNat < 32 || c.toNat == 127) && c != '\t'

/-- What stands behind white space. -/
def skipSpace (cs : List Char) : List Char := cs.dropWhile isSpace

/-- A comment up to the end of its line, if one starts here. -/
def skipComment : List Char → Option (List Char)
  | '#' :: rest =>
    if (rest.takeWhile (· != '\n')).any isControl then none
    else some (rest.dropWhile (· != '\n'))
  | cs => some cs

/-- White space, line ends and comments between the elements of an array. -/
def skipBetween : Nat → List Char → Option (List Char)
  | 0, cs => some cs
  | fuel + 1, cs =>
    match cs.dropWhile isSpaceOrNewline with
    | '#' :: rest => do skipBetween fuel (← skipComment ('#' :: rest))
    | cs => some cs

/-! ### Strings -/

/-- The value of a hexadecimal digit. -/
def hexDigit? (c : Char) : Option Nat :=
  if '0' ≤ c ∧ c ≤ '9' then some (c.toNat - '0'.toNat)
  else if 'a' ≤ c ∧ c ≤ 'f' then some (c.toNat - 'a'.toNat + 10)
  else if 'A' ≤ c ∧ c ≤ 'F' then some (c.toNat - 'A'.toNat + 10)
  else none

/-- A character given by a number of hexadecimal digits. -/
def hexChar (count : Nat) : Reader Char := fun cs => do
  let digits ← (cs.take count).mapM hexDigit?
  if digits.length ≠ count then none
  else
    let n := digits.foldl (fun n d => 16 * n + d) 0
    if n.isValidChar then some (Char.ofNat n, cs.drop count) else none

/-- What a backslash and the characters behind it stand for. -/
def escape : Reader Char
  | 'b' :: rest => some ('\x08', rest)
  | 't' :: rest => some ('\t', rest)
  | 'n' :: rest => some ('\n', rest)
  | 'f' :: rest => some ('\x0c', rest)
  | 'r' :: rest => some ('\r', rest)
  | '"' :: rest => some ('"', rest)
  | '\\' :: rest => some ('\\', rest)
  | 'u' :: rest => hexChar 4 rest
  | 'U' :: rest => hexChar 8 rest
  | _ => none

/-- The rest behind a backslash at the end of a line, which takes the white space of the next
lines with it. -/
def lineContinuation : List Char → Option (List Char)
  | [] => none
  | c :: rest =>
    if c = '\n' then some (rest.dropWhile isSpaceOrNewline)
    else if isSpace c then
      match skipSpace rest with
      | [] => some []
      | '\n' :: rest => some (rest.dropWhile isSpaceOrNewline)
      | _ => none
    else none

/-- The rest of a string in double quotes on one line; `acc` is what was read, backwards. -/
def basicString : Nat → List Char → Reader String
  | 0, _, _ => none
  | fuel + 1, acc, cs =>
    match cs with
    | '"' :: rest => some (String.ofList acc.reverse, rest)
    | '\\' :: rest => do
      let (c, rest) ← escape rest
      basicString fuel (c :: acc) rest
    | c :: rest => if isControl c then none else basicString fuel (c :: acc) rest
    | [] => none

/-- One or two quotes that stand before the three at the end of a string belong to it. -/
def closingQuotes (quote : Char) (acc : List Char) : Reader String
  | c :: d :: rest =>
    if c = quote then
      if d = quote then some (String.ofList (quote :: quote :: acc).reverse, rest)
      else some (String.ofList (quote :: acc).reverse, d :: rest)
    else some (String.ofList acc.reverse, c :: d :: rest)
  | [c] =>
    if c = quote then some (String.ofList (quote :: acc).reverse, [])
    else some (String.ofList acc.reverse, [c])
  | [] => some (String.ofList acc.reverse, [])

/-- The rest of a string in three double quotes. -/
def multilineBasic : Nat → List Char → Reader String
  | 0, _, _ => none
  | fuel + 1, acc, cs =>
    match cs with
    | '"' :: '"' :: '"' :: rest => closingQuotes '"' acc rest
    | '\\' :: rest =>
      match lineContinuation rest with
      | some rest => multilineBasic fuel acc rest
      | none => do
        let (c, rest) ← escape rest
        multilineBasic fuel (c :: acc) rest
    | c :: rest =>
      if isControl c && c != '\n' then none else multilineBasic fuel (c :: acc) rest
    | [] => none

/-- The rest of a string in single quotes on one line. -/
def literalString : Reader String := fun cs =>
  let content := cs.takeWhile (· != '\'')
  match cs.drop content.length with
  | _ :: rest => if content.any isControl then none else some (String.ofList content, rest)
  | [] => none

/-- The rest of a string in three single quotes. -/
def multilineLiteral : List Char → Reader String
  | acc, '\'' :: '\'' :: '\'' :: rest => closingQuotes '\'' acc rest
  | acc, c :: rest => if isControl c && c != '\n' then none else multilineLiteral (c :: acc) rest
  | _, [] => none

/-- The newline right behind three quotes does not count. -/
def dropNewline : List Char → List Char
  | '\n' :: rest => rest
  | cs => cs

/-- A string of any of the four kinds. -/
def string : Reader String := fun cs =>
  match cs with
  | '"' :: '"' :: '"' :: rest => multilineBasic (cs.length + 1) [] (dropNewline rest)
  | '"' :: rest => basicString (cs.length + 1) [] rest
  | '\'' :: '\'' :: '\'' :: rest => multilineLiteral [] (dropNewline rest)
  | '\'' :: rest => literalString rest
  | _ => none

/-! ### Keys -/

/-- The parts of a dotted key. -/
abbrev Key := List String

/-- The characters of a bare key. -/
def isBare (c : Char) : Bool := c.isAlphanum || c == '-' || c == '_'

/-- One part of a key: bare, or a string on one line. -/
def keyPart : Reader String := fun cs =>
  match cs with
  | '"' :: rest => basicString (cs.length + 1) [] rest
  | '\'' :: rest => literalString rest
  | c :: _ =>
    if isBare c then some (String.ofList (cs.takeWhile isBare), cs.dropWhile isBare) else none
  | [] => none

/-- The parts of a key between points, with white space around them. -/
def keyParts : Nat → Reader Key
  | 0, _ => none
  | fuel + 1, cs => do
    let (part, rest) ← keyPart cs
    match skipSpace rest with
    | '.' :: rest =>
      let (parts, rest) ← keyParts fuel (skipSpace rest)
      return (part :: parts, rest)
    | rest => return ([part], rest)

/-- A key of one part or of several. -/
def key : Reader Key := fun cs => keyParts (cs.length + 1) cs

end Dichromat.Toml
