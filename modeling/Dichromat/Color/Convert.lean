import Dichromat.Color.Eye

/-!
# Colours of any space

`Color` is an RGB or a perceptual colour. `Color.copyTo` copies one colour into another with the
conversion that their spaces ask for, and tells what is left of both: a copy that is refused
midway has changed a part of its target, and reading an intensity limit makes the colour that has
it remember it.
-/

namespace Dichromat

variable {α : Type} [ColorArith α]

/-- A colour of any space. -/
inductive Color (α : Type)
  | rgb (c : Rgb α)
  | eye (c : Eye α)
  deriving Repr

/-- What a copy leaves of the two colours, and the fault that stopped it. -/
structure Transfer (α : Type) where
  source : Color α
  target : Color α
  fault : Option Fault
  deriving Repr

namespace Color

/-- The space of a colour. -/
def space : Color α → Space
  | rgb c => .rgb c.space
  | eye c => .eye c.space

/-- A colour of a space before anything is known of it. -/
def blank : Space → Color α
  | .rgb space => rgb (Rgb.blank space)
  | .eye space => eye (Eye.blank space)

/-- A new colour of the space with a name. -/
def blankNamed (name : String) : Except Fault (Color α) :=
  match Space.ofName? name with
  | some space => .ok (blank space)
  | none => .error (.unknownSpace name)

/-- A colour given by its channels in the RGB space with a name. -/
def rgbNamed (name : String) (values : List α) : Except Fault (Color α) :=
  match Space.ofName? name with
  | some (.rgb space) => (Rgb.ofList space values).map rgb
  | some space => .error (.notRgbSpace space.shown)
  | none => .error (.notRgbSpace name)

/-- A new colour of the perceptual space with a name. -/
def eyeNamed (name : String) : Except Fault (Color α) :=
  match Space.ofName? name with
  | some (.eye space) => .ok (eye (Eye.blank space))
  | some space => .error (.notEyeSpace space.shown)
  | none => .error (.notEyeSpace name)

/-! ### Copies -/

/-- The fault of an outcome, if it has one. -/
def faultOf {β : Type} : Except Fault β → Option Fault
  | .ok _ => none
  | .error e => some e

/-- Changes an RGB colour, with what that leaves of it. -/
def changeRgb (u : Update (Rgb α) Unit) (target : Rgb α) : Color α × Option Fault :=
  let (outcome, target) := u.runOn target
  (rgb target, faultOf outcome)

/-- A perceptual colour as an update leaves it, with the fault. -/
def changeEye (u : Update (Eye α) Unit) (target : Eye α) : Color α × Option Fault :=
  let (outcome, target) := u.runOn target
  (eye target, faultOf outcome)

/-- The linear channels of an RGB colour. -/
def linearChannels (c : Rgb α) : Except Fault (Triple α) :=
  match c.space with
  | .linear => .ok c.channels
  | .gamma => c.channels.mapM linearOfGamma

/-- Takes over a perceptual colour; linear channels must be real numbers to be gamma-encoded. -/
def copyEyeToRgb (source : Eye α) : Update (Rgb α) Unit := do
  let linear ← source.toLinear
  match (← get).space with
  | .linear => modify fun c => { c with channels := linear }
  | .gamma =>
    let c ← Rgb.ofList .linear linear.toList
    Rgb.copyRgb c

/-- Takes over an RGB colour. -/
def copyRgbToEye (source : Rgb α) : Update (Eye α) Unit := do
  let linear ← linearChannels source
  Eye.readLinear linear

/-- Copies a colour into another one, which keeps its space. -/
def copyTo (source target : Color α) : Transfer α :=
  match source, target with
  | rgb s, rgb t =>
    let (target, fault) := changeRgb (Rgb.copyRgb s) t
    { source, target, fault }
  | rgb s, eye t =>
    let (target, fault) := changeEye (copyRgbToEye s) t
    { source, target, fault }
  | eye s, rgb t =>
    let (target, fault) := changeRgb (copyEyeToRgb s) t
    { source, target, fault }
  | eye s, eye t =>
    let (target, fault) := changeEye (Eye.copyEye s) t
    let readsLimit := t.space = .normalized ∧ s.space = .perceived
    let source := if readsLimit then eye s.withKnownLimit else source
    { source, target, fault }

/-- A new colour of a space with the value of this one. -/
def convert (c : Color α) (space : Space) : Transfer α := c.copyTo (blank space)

/-- Copies a list of channels: of the colour's own space, or gamma-encoded for a perceptual one. -/
def copyList (values : List α) : Color α → Color α × Option Fault
  | rgb t => changeRgb (Rgb.copyList values) t
  | eye t =>
    changeEye
      (do
        let c ← Rgb.ofList .gamma values
        copyRgbToEye c)
      t

/-- Brings a colour into its ranges. -/
def confine : Color α → Color α × Option Fault
  | rgb t => changeRgb Rgb.confine t
  | eye t => changeEye Eye.confine t

/-- The gamma-encoded channels as integers. -/
def gammaChannels (c : Color α) : Except Fault (Triple Int) := do
  let t := c.convert (.rgb .gamma)
  match t.fault, t.target with
  | none, rgb g => g.channels.mapM Arith.truncate
  | some e, _ => .error e
  | none, eye _ => .error .wrongKind

end Color

end Dichromat
