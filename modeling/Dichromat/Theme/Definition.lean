import Dichromat.Theme.Hex
import Dichromat.Optimizer

/-!
# Theme colours

A theme is a list of named colours. `Theme.convert` optimizes their codes for a dichromat, and
`Theme.renderCss` writes them as a block of custom properties.
-/

namespace Dichromat

/-- A name and the colour it stands for; both are text in a proper theme. -/
structure Definition where
  identifier : Value
  color : Value

namespace Theme

/-- The definitions with the given codes, as far as there are codes. -/
def recolor (definitions : List Definition) (palette : List (Triple Int)) : List Definition :=
  definitions.zipWith (fun d rgb => { d with color := .text (Hex.encode rgb) }) palette

/-- The colours adjusted for a deficiency; without one they stay as they are. -/
def convert (definitions : List Definition) (mode : Value) (settings : Settings Value) :
    Except Fault (List Definition) := do
  let deficiency ← Deficiency.ofValue mode
  if deficiency = .none then return definitions
  let palette ← definitions.mapM fun d => Hex.decodeValue d.color
  let values := palette.map fun rgb => Value.list (rgb.toList.map fun n : Nat => .int n)
  let result ← optimizeValue (.list values) (.text deficiency.name) settings none
  return recolor definitions result.palette

/-! ### Stylesheets -/

/-- An identifier as the name of a custom property. -/
def propertyName (identifier : String) : String :=
  if identifier.startsWith "--" then identifier else "--" ++ identifier

/-- The line that declares a colour. -/
def declaration (identifier color : String) : String :=
  "  " ++ propertyName identifier ++ ": " ++ color ++ ";"

/-- A block of declarations, one in each line. -/
def renderBlock (selector : String) (declarations : List String) : String :=
  String.intercalate "\n" ((selector ++ " \x7b") :: (declarations ++ ["\x7d"])) ++ "\n"

/-- The colours as custom properties of a selector; names must be text. -/
def renderCss (definitions : List Definition) (selector : String) : Except Fault String := do
  let declarations ← definitions.mapM fun d =>
    match d.identifier with
    | .text identifier => .ok (declaration identifier d.color.shown)
    | _ => .error .noSuchOperation
  return renderBlock selector declarations

end Theme

end Dichromat
