import Dichromat.Value
import Dichromat.Decimal.Notation
import Dichromat.Text.Number

/-!
# Values in messages

`Value.quoted` writes a value so that its kind shows, text in quotes; `Value.shown` writes text
bare and everything else alike.
-/

namespace Dichromat.Value

/-- A number in the notation of complex numbers: without `.0` behind a whole one. -/
private def partText (x : Float) : String :=
  let s := Decimal.shortest x
  if s.endsWith ".0" then (s.dropEnd 2).toString else s

/-- A complex number; a real part that is positive zero is left out. -/
def complexText (re im : Float) : String :=
  if re.toBits = 0 then partText im ++ "j"
  else
    let sign := if (partText im).startsWith "-" then "" else "+"
    "(" ++ partText re ++ sign ++ partText im ++ "j)"

/-- The name of a kind of moment. -/
private def momentText : Moment → String
  | .date => "date"
  | .time => "time"
  | .dateTime => "datetime"

mutual

/-- A value as messages show it within other text. -/
def quoted : Value → String
  | null => "None"
  | bool b => if b then "True" else "False"
  | int n => toString n
  | float x => Decimal.shortest x
  | complex re im => complexText re im
  | text s => Text.quoted s
  | list items => "[" ++ String.intercalate ", " (quotedItems items) ++ "]"
  | table entries => "\x7b" ++ String.intercalate ", " (quotedEntries entries) ++ "\x7d"
  | moment kind => momentText kind

/-- The texts of elements. -/
private def quotedItems : List Value → List String
  | [] => []
  | v :: rest => quoted v :: quotedItems rest

/-- The texts of entries. -/
private def quotedEntries : List (String × Value) → List String
  | [] => []
  | (k, v) :: rest => (Text.quoted k ++ ": " ++ quoted v) :: quotedEntries rest

end

/-- The text of a value; a text is its own. -/
def shown : Value → String
  | text s => s
  | v => quoted v

mutual

/-- Whether no integer in a value has too many digits to be written. -/
def isWritable : Value → Bool
  | int n => n.natAbs < tenTo Text.digitLimit
  | list items => areWritable items
  | table entries => entriesAreWritable entries
  | _ => true

/-- Whether all elements can be written. -/
private def areWritable : List Value → Bool
  | [] => true
  | v :: rest => isWritable v && areWritable rest

/-- Whether all entries can be written. -/
private def entriesAreWritable : List (String × Value) → Bool
  | [] => true
  | (_, v) :: rest => isWritable v && entriesAreWritable rest

end

end Dichromat.Value
