import Dichromat.Theme.Definition

/-!
# Reports

The outcome of an optimization with its errors, written as a JSON object.
-/

namespace Dichromat.CommandLine

/-- What is told of a run. -/
structure Summary (α : Type) where
  mode : String
  /-- The colours by name, each name once. -/
  colors : List (String × String)
  initialError : α
  /-- None stands for infinity. -/
  bestError : Option α
  iterations : Int
  bestIteration : Int

/-- What is told of a run that counts with values. -/
abbrev Report := Summary Value

namespace Report

/-- Sets the colour of a name; a name that is there keeps its place. -/
def setColor (colors : List (String × String)) (name color : String) : List (String × String) :=
  if colors.any fun entry => entry.1 = name then
    colors.map fun entry => if entry.1 = name then (name, color) else entry
  else colors ++ [(name, color)]

/-- The table of named colours; a name that comes again keeps its place and gets the later colour.
-/
def colorTable (definitions : List (String × String)) : List (String × String) :=
  definitions.foldl (fun colors d => setColor colors d.1 d.2) []

/-! ### JSON text -/

/-- A character given by its number. -/
private def unicodeEscape (n : Nat) : List Char := '\\' :: 'u' :: Text.hexadecimal 4 n

/-- A character within quotes; those beyond ASCII are given by their UTF-16 units. -/
def escape (c : Char) : List Char :=
  let n := c.toNat
  if c = '"' ∨ c = '\\' then ['\\', c]
  else if c = '\n' then ['\\', 'n']
  else if c = '\r' then ['\\', 'r']
  else if c = '\t' then ['\\', 't']
  else if c = '\x08' then ['\\', 'b']
  else if c = '\x0c' then ['\\', 'f']
  else if 32 ≤ n ∧ n < 127 then [c]
  else if n < 0x10000 then unicodeEscape n
  else
    let m := n - 0x10000
    unicodeEscape (0xD800 + m / 1024) ++ unicodeEscape (0xDC00 + m % 1024)

/-- A text between double quotes. -/
def quote (s : String) : String := String.ofList ('"' :: (s.toList.flatMap escape ++ ['"']))

/-- A number; the ones that are not finite have names. -/
def number (v : Value) : String :=
  match v.shown with
  | "nan" => "NaN"
  | "inf" => "Infinity"
  | "-inf" => "-Infinity"
  | s => s

/-- The table of colours, one in a line. -/
private def colorLines (colors : List (String × String)) : String :=
  if colors.isEmpty then "\x7b\x7d"
  else
    let lines := colors.map fun entry => "    " ++ quote entry.1 ++ ": " ++ quote entry.2
    "\x7b\n" ++ String.intercalate ",\n" lines ++ "\n  \x7d"

/-- The text of a report. -/
def render (r : Report) : String :=
  let fields :=
    [("mode", quote r.mode), ("colors", colorLines r.colors),
      ("initial_error", number r.initialError),
      ("best_error", (r.bestError.map number).getD "Infinity"),
      ("iterations", toString r.iterations), ("best_iteration", toString r.bestIteration)]
  let lines := fields.map fun field => "  " ++ quote field.1 ++ ": " ++ field.2
  "\x7b\n" ++ String.intercalate ",\n" lines ++ "\n\x7d\n"

end Report

end Dichromat.CommandLine
