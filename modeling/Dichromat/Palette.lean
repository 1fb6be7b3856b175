import Dichromat.Vision
import Dichromat.Value.Number

/-!
# Palettes

A palette is a list of colours, a colour a list of channels. Palettes come as values of any shape;
`Palette.validate` accepts those whose colours are three numbers from 0 to 255. Text counts as the
list of its characters there, and a table as the list of its keys.
-/

namespace Dichromat

/-- Colours by their channels. -/
abbrev Palette (α : Type) := List (List α)

namespace Value

/-- The characters of a text. -/
private def characters (s : String) : List Value := s.toList.map fun c => text (String.singleton c)

/-- The elements of a value one after the other. -/
def elements : Value → Except Fault (List Value)
  | list items => .ok items
  | text s => .ok (characters s)
  | table entries => .ok (entries.map fun entry => text entry.1)
  | _ => .error .wrongKind

/-- The elements of a value by their places; a table has keys instead. -/
def places : Value → Except Fault (List Value)
  | list items => .ok items
  | text s => .ok (characters s)
  | table _ => .error .noSuchKey
  | _ => .error .wrongKind

/-- Integers and floating-point numbers; truth values do not count. -/
def isReal : Value → Bool
  | int _ | float _ => true
  | _ => false

end Value

namespace Palette

/-- Checks a channel: a real number from 0 to 255. -/
def validateChannel (color : Nat) (value : Value) : Except Fault Unit := do
  unless value.isReal do throw (.channelNotNumber color value.quoted)
  let low ← Value.le (.int 0) value
  let fits ← if low then Value.le value (.int 255) else pure false
  unless fits do throw (.channelOutOfRange color value.shown)

/-- Checks a colour: three channels, which are its result. -/
def validateColor (color : Nat) (value : Value) : Except Fault (List Value) := do
  let channels ← value.elements
  unless channels.length = 3 do throw (.channelCount color channels.length)
  channels.forM (validateChannel color)
  return channels

/-- The colours of a palette, each three channels from 0 to 255. -/
def validate (palette : Value) : Except Fault (Palette Value) := do
  let colors ← palette.elements
  colors.zipIdx.mapM fun (value, color) => validateColor color value

/-- The linear channels of a palette of any shape. -/
def linear (palette : Value) : Except Fault (List (Triple Value)) := do
  let colors ← palette.elements
  colors.mapM fun color => do linearOfGammaColor (← color.places)

/-- Gamma-encoded colours of any shape as a dichromat perceives them. -/
def simulate (d : Deficiency) (colors : List Value) : Except Fault (List (Triple Int)) :=
  ((simulateBy Value.places d colors).runOn (Triple.replicate (Arith.decimal 0 0))).1

end Palette

end Dichromat
