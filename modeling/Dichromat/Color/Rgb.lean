import Dichromat.Color.Perception

/-!
# RGB colours

Linear channels run from 0 to 1 with the intensity of light, gamma-encoded ones from 0 to 255 as
images store them. `gammaOfLinear` and `linearOfGamma` lead from one to the other.
-/

namespace Dichromat

/-- The spaces of colours with channels. -/
inductive RgbSpace
  | linear | gamma
  deriving DecidableEq, Repr

/-- The spaces of perceptual colours. -/
inductive EyeSpace
  | perceived | normalized
  deriving DecidableEq, Repr

/-- The spaces of colours. -/
inductive Space
  | rgb (space : RgbSpace)
  | eye (space : EyeSpace)
  deriving DecidableEq, Repr

namespace Space

/-- The name of a space. -/
def name : Space → String
  | rgb .linear => "linear_rgb"
  | rgb .gamma => "gamma_rgb"
  | eye .perceived => "eye_perc_i"
  | eye .normalized => "eye_norm_j"

/-- All spaces. -/
def all : List Space := [rgb .linear, rgb .gamma, eye .perceived, eye .normalized]

/-- The space with a name, if there is one. -/
def ofName? (s : String) : Option Space := all.find? fun space => space.name = s

/-- A space as messages show it. -/
def shown : Space → String
  | rgb .linear => "ColorSpace.LINEAR_RGB"
  | rgb .gamma => "ColorSpace.GAMMA_RGB"
  | eye .perceived => "ColorSpace.EYE_PERC_I"
  | eye .normalized => "ColorSpace.EYE_NORM_J"

end Space

variable {α : Type} [ColorArith α]

open Calc

/-! ### Gamma encoding -/

/-- The gamma-encoded channel nearest to a linear one; a half goes to the even neighbour. -/
def gammaOfLinear (value : α) : Except Fault Int := do
  let x : Calc α := value
  let scaled ← pow (max x 0.0) gammaInverse * 255
  Arith.round scaled

/-- The linear light of a gamma-encoded channel. -/
def linearOfGamma (value : α) : Calc α :=
  let x : Calc α := value
  pow (x / 255) gamma

/-- A linear channel as a gamma-encoded one, a whole number. -/
def encodeGamma (value : α) : Calc α := do
  let n ← gammaOfLinear value
  return Arith.whole n

/-! ### Colours -/

namespace Triple

/-- The first three values of a list, each read as a real number before the next is looked up. -/
def ofReals (values : List α) : Except Fault (Triple α) :=
  ofTerms fun k => do Arith.real (← termOf values k)

end Triple

/-- The nearest value between 0 and `top`. -/
def confined (top : Calc α) (value : α) : Calc α := do
  let x : Calc α := value
  if ← lt x 0 then 0.0
  else if ← lt top x then top
  else x

/-- A colour by its channels, in a space. -/
structure Rgb (α : Type) where
  space : RgbSpace
  channels : Triple α
  deriving Repr

namespace Rgb

/-- Black. -/
def blank (space : RgbSpace) : Rgb α := ⟨space, Triple.replicate (Arith.decimal 0 0)⟩

/-- A colour from its channels, read as real numbers. -/
def ofList (space : RgbSpace) (values : List α) : Except Fault (Rgb α) :=
  (Triple.ofReals values).map fun channels => ⟨space, channels⟩

/-- Sets the channels from red to blue. -/
def assign (f : Channel → Calc α) : Update (Rgb α) Unit :=
  Channel.all.forM fun k => do
    let x ← f k
    modify fun c => { c with channels := c.channels.set k x }

/-- Takes over a list of channel values as they are. -/
def copyList (values : List α) : Update (Rgb α) Unit := assign (Triple.termOf values)

/-- Takes over another colour, converted into this one's space. -/
def copyRgb (source : Rgb α) : Update (Rgb α) Unit := do
  let target ← get
  assign fun k =>
    match target.space, source.space with
    | .gamma, .linear => encodeGamma (source.channels.get k)
    | .linear, .gamma => linearOfGamma (source.channels.get k)
    | _, _ => .ok (source.channels.get k)

/-- The highest value of a channel. -/
def top (space : RgbSpace) : Calc α :=
  match space with
  | .linear => 1.0
  | .gamma => 255.0

/-- Brings every channel into the range of the space. -/
def confine : Update (Rgb α) Unit := do
  let c ← get
  assign fun k => confined (top c.space) (c.channels.get k)

end Rgb

/-- The linear channels of a gamma-encoded colour. -/
def linearOfGammaColor (values : List α) : Except Fault (Triple α) := do
  let c ← Triple.ofReals values
  c.mapM linearOfGamma

/-- The gamma-encoded channels of a linear colour. -/
def gammaOfLinearColor (c : Triple α) : Except Fault (Triple Int) := c.mapM gammaOfLinear

end Dichromat
