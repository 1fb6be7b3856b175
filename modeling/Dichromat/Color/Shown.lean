import Dichromat.Color.Convert
import Dichromat.Value.Number

/-!
# Colours in messages

`Color.shown` writes a colour on one line: RGB channels in full, the fields of a perceptual colour
with four decimal places.
-/

namespace Dichromat

namespace Value

/-- The parts of a complex number with a fixed number of places, the imaginary one with a sign. -/
def fixedComplex (places : Nat) (re im : Float) : String :=
  let imaginary := Decimal.fixed places im
  Decimal.fixed places re ++ (if imaginary.startsWith "-" then "" else "+") ++ imaginary ++ "j"

/-- A number with a fixed number of places. -/
def fixed (places : Nat) : Value → Except Fault String
  | complex re im => .ok (fixedComplex places re im)
  | text _ => .error .notFixed
  | v => v.toFloat.map (Decimal.fixed places)

end Value

/-- The text of a colour with channels. -/
def Rgb.shown (c : Rgb Value) : String :=
  let space := match c.space with
    | .linear => "LINEAR_RGB"
    | .gamma => "GAMMA_RGB"
  s!"RGB({space}, {Value.quoted (.list c.channels.toList)})"

/-- The text of a perceptual colour. -/
def Eye.shown (e : Eye Value) : Except Fault String := do
  let (field, intensity) := match e.space with
    | .perceived => ("i", e.perceived)
    | .normalized => ("j", e.normalized)
  let hue ← e.hue.fixed 4
  let purity ← e.purity.fixed 4
  let intensity ← intensity.fixed 4
  return s!"Eye(r={hue}, p={purity}, {field}={intensity})"

/-- The text of a colour of any space. -/
def Color.shown : Color Value → Except Fault String
  | .rgb c => .ok c.shown
  | .eye e => e.shown

end Dichromat
