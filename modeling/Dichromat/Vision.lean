import Dichromat.Color.Convert
import Dichromat.Text.Character

/-!
# Dichromatic vision

What a red- or green-blind eye sees of linear RGB light (`Deficiency.seen`), as matrices on linear
channels. `Deficiency.project` leads to the perceptual colour; a `Projector` does the same into
buffers of its own that every call overwrites, and `simulate` works on gamma-encoded palettes, whose
colours all go through one scratch buffer.
-/

namespace Dichromat

/-- The kinds of colour blindness. -/
inductive Deficiency
  | none | red | green
  deriving DecidableEq, Repr

namespace Deficiency

/-- The name of a deficiency. -/
def name : Deficiency → String
  | none => "none"
  | red => "red"
  | green => "green"

/-- The names of a deficiency, by its primary or as medicine calls it. -/
def aliases : List (String × Deficiency) :=
  [("none", none), ("red", red), ("protanopia", red), ("green", green), ("deuteranopia", green)]

/-- The deficiency of a name, in letters of any case and between white space. All names consist
of ASCII letters, and no other character has one of these as its lower case. -/
def ofName (s : String) : Except Fault Deficiency :=
  let key := String.ofList ((Text.strip s.toList).map Char.toLower)
  match aliases.find? fun entry => entry.1 = key with
  | some entry => .ok entry.2
  | Option.none => .error (.unknownDeficiency s)

end Deficiency

variable {α : Type} [ColorArith α]

open Calc

/-! ### Light -/

namespace Deficiency

/-- A channel that is kept off both ends of its range. -/
def soften (x : α) : Calc α := 0.99 * (x : Calc α) + 0.005

/-! What the one receptor for red and green light feels, and what is left of blue. -/

/-- The yellow of an eye without the receptor for red. -/
@[inline] def redBlindYellow (r g : Calc α) : Calc α :=
  0.1123822674257492 * r + 0.8876119706946073 * g

/-- The blue of an eye without the receptor for red. -/
@[inline] def redBlindBlue (r g b : Calc α) : Calc α :=
  0.00400576009958313 * r - 0.004005734096601488 * g + b

/-- The yellow of an eye without the receptor for green. -/
@[inline] def greenBlindYellow (r g : Calc α) : Calc α :=
  0.292750775976202 * r + 0.7072518589062524 * g

/-- The blue of an eye without the receptor for green. -/
@[inline] def greenBlindBlue (r g b : Calc α) : Calc α :=
  -0.02233647741916585 * r + 0.02233656063451689 * g + b

/-- The linear light that a dichromat perceives, not brought into the range of RGB. Each channel is
read where the formulas come to it. -/
@[inline] def lightOf (d : Deficiency) (term : Channel → Calc α) : Except Fault (Triple α) :=
  match d with
  | none => Triple.ofTerms term
  | red => do
    let r := term .red
    let g := term .green
    let yellow ← redBlindYellow r g
    let blue ← redBlindBlue r g (term .blue)
    return ⟨yellow, yellow, blue⟩
  | green => do
    let c ← Triple.ofTerms fun k => do soften (← term k)
    let r := c.term .red
    let g := c.term .green
    let blue ← greenBlindBlue r g (c.term .blue)
    let yellow ← greenBlindYellow r g
    (⟨yellow, yellow, blue⟩ : Triple α).mapM soften

/-- The light perceived of linear channels. -/
def light (d : Deficiency) (c : Triple α) : Except Fault (Triple α) := d.lightOf c.term

/-- The light perceived, as a linear RGB colour. -/
def seen (d : Deficiency) (c : Triple α) : Except Fault (Triple α) := do
  let c ← d.light c
  c.mapM (confined 1.0)

/-- The perceived colour of linear channels. -/
def project (d : Deficiency) (c : Triple α) : Except Fault (Eye α) := do
  let c ← d.seen c
  Eye.ofLinear .perceived c

end Deficiency

/-! ### Projection into buffers -/

/-- The buffers through which colours are projected. -/
structure Projector (α : Type) where
  deficiency : Deficiency
  /-- The light last perceived. -/
  light : Triple α
  /-- The colour last perceived; the limit that it remembers may be that of an earlier one. -/
  eye : Eye α

namespace Projector

/-- New buffers for a deficiency. -/
def ofDeficiency (deficiency : Deficiency) : Projector α where
  deficiency
  light := Triple.replicate (Arith.decimal 0 0)
  eye := Eye.blank .perceived

/-- Projects linear channels. -/
def project (p : Projector α) (c : Triple α) : Except Fault (Projector α) := do
  let light ← p.deficiency.seen c
  let eye ← (Eye.readLinear light).apply p.eye
  return { p with light, eye }

/-- Projects into the buffers and copies the colour out of them. -/
def projectCopy (p : Projector α) (c : Triple α) : Except Fault (Eye α × Projector α) := do
  let p ← p.project c
  let copy ← (Eye.copyEye p.eye).apply (Eye.blank .perceived)
  return (copy, p)

/-- Projects colours one after the other through the same buffers, and copies each out of them. -/
def projectAll (p : Projector α) : List (Triple α) → Except Fault (List (Eye α) × Projector α)
  | [] => .ok ([], p)
  | c :: rest => do
    let (eye, p) ← p.projectCopy c
    let (eyes, p) ← p.projectAll rest
    return (eye :: eyes, p)

end Projector

/-! ### Simulation -/

/-- Sets a channel of a buffer to the value of a formula over what the buffer holds. -/
def writeChannel (k : Channel) (formula : Triple α → Calc α) : Update (Triple α) Unit := do
  let out ← get
  let x ← formula out
  set (out.set k x)

/-- Writes the light that a dichromat perceives of linear channels into a buffer. What was written
before is read again, and written over. -/
def Deficiency.writeLight (d : Deficiency) (c : Triple α) : Update (Triple α) Unit :=
  match d with
  | none => Channel.all.forM fun k => writeChannel k fun _ => c.term k
  | red => do
    writeChannel .red fun _ => redBlindYellow (c.term .red) (c.term .green)
    writeChannel .green fun out => out.term .red
    writeChannel .blue fun _ => redBlindBlue (c.term .red) (c.term .green) (c.term .blue)
  | green => do
    Channel.all.forM fun k => writeChannel k fun _ => soften (c.get k)
    writeChannel .blue fun out => greenBlindBlue (out.term .red) (out.term .green) (out.term .blue)
    writeChannel .green fun out => greenBlindYellow (out.term .red) (out.term .green)
    writeChannel .red fun out => out.term .green
    Channel.all.forM fun k => writeChannel k fun out => soften (out.get k)

/-- A gamma-encoded colour as a dichromat perceives it; its light goes through a scratch buffer. -/
def simulateColor (d : Deficiency) (color : List α) : Update (Triple α) (Triple Int) := do
  let linear ← linearOfGammaColor color
  d.writeLight linear
  let scratch ← get
  let light ← Triple.ofReals scratch.toList
  let light ← light.mapM (confined 1.0)
  gammaOfLinearColor light

/-- The colours of a palette one after the other through the same scratch buffer, each with the
channels that it is found to have when its turn comes. -/
def simulateBy {β : Type} (channels : β → Except Fault (List α)) (d : Deficiency)
    (palette : List β) : Update (Triple α) (List (Triple Int)) :=
  palette.mapM fun color => do simulateColor d (← channels color)

/-- A gamma-encoded palette as a dichromat perceives it. -/
def simulate (d : Deficiency) (palette : List (List α)) : Except Fault (List (Triple Int)) :=
  ((simulateBy .ok d palette).runOn (Triple.replicate (Arith.decimal 0 0))).1

end Dichromat
