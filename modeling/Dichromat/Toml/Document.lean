import Dichromat.Toml.Levels

/-!
# TOML documents

`Toml.document` reads a document into the entries of its root table. A document is read statement
by statement; which tables may still be opened or extended is kept in a `Ledger` of keys.
-/

namespace Dichromat.Toml

/-- The entries of a table in their order. -/
abbrev Entries := List (String × Value)

/-! ### Nested tables -/

/-- Puts a value in the place of that of a name. -/
def replace (k : String) (v : Value) (entries : Entries) : Entries :=
  entries.map fun entry => if entry.1 = k then (k, v) else entry

/-- Changes the table behind a key, making tables that are missing. Where lists may be entered, an
array of tables stands for its last one. -/
def modifyNest (enterLists : Bool) (f : Entries → Option Entries) :
    Key → Entries → Option Entries
  | [], entries => f entries
  | k :: rest, entries =>
    match Value.field? k entries with
    | none => (modifyNest enterLists f rest []).map fun nest => entries ++ [(k, .table nest)]
    | some (.table nest) =>
      (modifyNest enterLists f rest nest).map fun nest => replace k (.table nest) entries
    | some (.list items) =>
      match enterLists, items.getLast? with
      | true, some (.table nest) =>
        (modifyNest enterLists f rest nest).map fun nest =>
          replace k (.list (items.dropLast ++ [.table nest])) entries
      | _, _ => none
    | some _ => none

/-- Adds an entry that must be new. -/
def addEntry (k : String) (v : Value) (entries : Entries) : Option Entries :=
  if (Value.field? k entries).isSome then none else some (entries ++ [(k, v)])

/-- Adds an empty table to the array of tables behind a key. -/
def addTable (k : String) (entries : Entries) : Option Entries :=
  match Value.field? k entries with
  | none => some (entries ++ [(k, .list [.table []])])
  | some (.list items) => some (replace k (.list (items ++ [.table []])) entries)
  | some _ => none

/-- Whether a value can hold others. -/
def isNest : Value → Bool
  | .table _ | .list _ => true
  | _ => false

/-! ### Values -/

/-- An inline table while it is read: a value that is a table or a list cannot be extended. -/
structure Inline where
  entries : Entries
  closed : List Key

/-- Adds the value of a key to an inline table. -/
def Inline.add (t : Inline) (k : Key) (v : Value) : Option Inline :=
  if t.closed.any fun c => c.isPrefixOf k then none
  else do
    let entries ← modifyNest false (addEntry (k.getLastD "") v) k.dropLast t.entries
    return { entries, closed := if isNest v then k :: t.closed else t.closed }

/-- Checks that so many levels are left as are needed. -/
def reserve (levels needed : Nat) : Except Fault Unit :=
  if levels < needed then .error .nestedTooDeeply else .ok ()

/-- What follows white space and comments in an array. -/
def skipGap (levels : Nat) (cs : List Char) : Except Fault (List Char) := do
  reserve levels (gapLevels cs.length cs)
  required (skipBetween cs.length cs)

mutual

/-- A value for which so many levels are left; `fuel` bounds the values and elements that are read.
The elements of an array lie two levels below it, the values of an inline table three. -/
def value : Nat → Nat → Parse Value
  | 0, _, _ => .error .malformed
  | fuel + 1, levels, cs => do
    reserve levels (valueLevels cs)
    match cs with
    | '"' :: _ | '\'' :: _ => required ((string cs).map fun (s, rest) => (.text s, rest))
    | '[' :: rest =>
      match ← skipGap levels rest with
      | ']' :: rest => return (.list [], rest)
      | rest =>
        let (items, rest) ← arrayItems fuel levels rest
        return (.list items, rest)
    | '\x7b' :: rest =>
      match skipSpace rest with
      | '\x7d' :: rest => return (.table [], rest)
      | rest =>
        let (entries, rest) ← inlineEntries fuel levels { entries := [], closed := [] } rest
        return (.table entries, rest)
    | cs => scalar cs

/-- The elements of an array from one on, up to its end. -/
def arrayItems : Nat → Nat → Parse (List Value)
  | 0, _, _ => .error .malformed
  | fuel + 1, levels, cs => do
    let (item, rest) ← value fuel (levels - 2) cs
    match ← skipGap levels rest with
    | ']' :: rest => return ([item], rest)
    | ',' :: rest =>
      match ← skipGap levels rest with
      | ']' :: rest => return ([item], rest)
      | rest =>
        let (items, rest) ← arrayItems fuel levels rest
        return (item :: items, rest)
    | rest =>
      reserve levels (mistakeLevels 1 rest)
      throw .malformed

/-- The entries of an inline table from one on, up to its end. -/
def inlineEntries : Nat → Nat → Inline → Parse Entries
  | 0, _, _, _ => .error .malformed
  | fuel + 1, levels, t, cs => do
    reserve levels (keyLevels (cs.length + 1) cs)
    let (k, rest) ← required (key cs)
    let '=' :: rest := rest | .error .malformed
    let (v, rest) ← value fuel (levels - 3) (skipSpace rest)
    let t ← required (t.add k v)
    match skipSpace rest with
    | '\x7d' :: rest => return (t.entries, rest)
    | ',' :: rest => inlineEntries fuel levels t (skipSpace rest)
    | _ => .error .malformed

end

/-! ### Statements -/

/-- What a document has defined, and which keys it may not use again. -/
structure Ledger where
  entries : Entries
  /-- The table that key/value pairs go to. -/
  header : Key
  /-- Tables that cannot be opened any more. -/
  opened : List Key
  /-- Tables made by dotted keys, which the next header closes. -/
  pending : List Key
  /-- Inline values: nothing below them may be changed. -/
  frozen : List Key

namespace Ledger

/-- The ledger before the first line of a document. -/
def empty : Ledger := { entries := [], header := [], opened := [], pending := [], frozen := [] }

/-- Whether a key lies in something that can no longer be extended. -/
def isFrozen (l : Ledger) (k : Key) : Bool := l.frozen.any fun f => f.isPrefixOf k

/-- The keys into a table that were made before it was listed anew no longer count. -/
def forget (k : Key) (keys : List Key) : List Key := keys.filter fun other => !k.isPrefixOf other

/-- Opens a table by its header. -/
def openTable (l : Ledger) (k : Key) : Option Ledger :=
  if l.opened.contains k || l.isFrozen k then none
  else do
    let entries ← modifyNest true some k l.entries
    return { l with entries, header := k, opened := k :: l.opened }

/-- Opens a new element of an array of tables. -/
def openElement (l : Ledger) (k : Key) : Option Ledger :=
  if l.isFrozen k then none
  else do
    let entries ← modifyNest true (addTable (k.getLastD "")) k.dropLast l.entries
    return { l with
      entries, header := k, opened := k :: forget k l.opened, frozen := forget k l.frozen }

/-- The tables on the way to a dotted key, below the header. -/
def tablesOf (header k : Key) : List Key :=
  (List.range (k.length - 1)).map fun i => header ++ k.take (i + 1)

/-- Sets a key below the header. -/
def assign (l : Ledger) (k : Key) (v : Value) : Option Ledger :=
  let tables := tablesOf l.header k
  let parent := l.header ++ k.dropLast
  if tables.any l.opened.contains || (!parent.isEmpty && l.isFrozen parent) then none
  else do
    let entries ← modifyNest true (addEntry (k.getLastD "") v) parent l.entries
    return { l with
      entries, pending := tables ++ l.pending
      frozen := if isNest v then (l.header ++ k) :: l.frozen else l.frozen }

/-- Closes the tables made by dotted keys. -/
def closePending (l : Ledger) : Ledger :=
  { l with opened := l.pending ++ l.opened, pending := [] }

end Ledger

/-- A header or a key/value pair, and the rest of its line. -/
def statement (levels : Nat) (l : Ledger) : Parse Ledger
  | '[' :: '[' :: rest => do
    let (k, rest) ← required (key (skipSpace rest))
    let l ← required (l.closePending.openElement k)
    match rest with
    | ']' :: ']' :: rest => return (l, rest)
    | _ => .error .malformed
  | '[' :: rest => do
    let (k, rest) ← required (key (skipSpace rest))
    let l ← required (l.closePending.openTable k)
    match rest with
    | ']' :: rest => return (l, rest)
    | _ => .error .malformed
  | cs => do
    let (k, rest) ← required (key cs)
    let '=' :: rest := rest | .error .malformed
    let rest := skipSpace rest
    let (v, rest) ← value (2 * rest.length + 2) levels rest
    let l ← required (l.assign k v)
    return (l, rest)

/-- The statements of a document; `fuel` bounds their number. -/
def statements (levels : Nat) : Nat → Ledger → List Char → Except Fault Ledger
  | 0, _, _ => .error .malformed
  | fuel + 1, l, cs =>
    match skipSpace cs with
    | [] => .ok l
    | '\n' :: rest => statements levels fuel l rest
    | c :: rest => do
      let (l, rest) ← if c = '#' then pure (l, c :: rest) else statement levels l (c :: rest)
      match ← required (skipComment (skipSpace rest)) with
      | [] => return l
      | '\n' :: rest => statements levels fuel l rest
      | _ => .error .malformed

/-- Text with line ends of one character. -/
def joinLineEnds : List Char → List Char
  | '\r' :: '\n' :: rest => '\n' :: joinLineEnds rest
  | c :: rest => c :: joinLineEnds rest
  | [] => []

/-- The entries of the root table of a document, whose values may be nested in so many levels. -/
def document (levels : Nat) (text : String) : Except Fault Entries :=
  let cs := joinLineEnds text.toList
  (statements levels (cs.length + 1) Ledger.empty cs).map Ledger.entries

end Dichromat.Toml
