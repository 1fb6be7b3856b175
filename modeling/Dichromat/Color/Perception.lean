import Dichromat.Color.Channel

/-!
# The constants of the perception model

They were measured, not derived. `Perception.standard` writes them once, for any type that has
the four operations and powers; `ColorArith` provides them in the numbers that the colour model
computes with.
-/

namespace Dichromat

/-- The constants of human vision. -/
structure Perception (α : Type) where
  gamma : α
  /-- Exponent from linear light to gamma-encoded channels. -/
  gammaInverse : α
  /-- Linear values below this are noise of eight-bit quantization. -/
  smallest : α
  /-- Sensitivity of the eye to each primary where channels add up. -/
  sensitivity : Triple α
  /-- Linearity of the hue where two primaries mix. -/
  mixing : Triple α
  mixingInverse : Triple α
  /-- Ability of each primary to tint white light. -/
  tinting : Triple α
  /-- Share of the middle and of the dimmest primary in the perceived intensity. -/
  middleShare : α
  dimmestShare : α
  /-- Perceived intensity of white before normalization. -/
  whiteIntensity : α
  /-- The sensitivities relative to the intensity of white. -/
  normalSensitivity : Triple α
  /-- The lowest of all intensity limits: every hue and purity can have this intensity. -/
  lowestLimit : α

namespace Perception

/-- The constants as other numbers. -/
def map {α β : Type} (f : α → β) (m : Perception α) : Perception β where
  gamma := f m.gamma
  gammaInverse := f m.gammaInverse
  smallest := f m.smallest
  sensitivity := m.sensitivity.map f
  mixing := m.mixing.map f
  mixingInverse := m.mixingInverse.map f
  tinting := m.tinting.map f
  middleShare := f m.middleShare
  dimmestShare := f m.dimmestShare
  whiteIntensity := f m.whiteIntensity
  normalSensitivity := m.normalSensitivity.map f
  lowestLimit := f m.lowestLimit

section Standard

variable (α : Type) [OfScientific α] [Add α] [Mul α] [Div α] [HPow α α α]

/-- The linearities of the standard observer. -/
private def standardMixing : Triple α := ⟨1.2, 1.6, 0.9⟩

/-- The intensity of white for the standard observer. -/
private def standardWhite : α := 15.0 * 0.15 + 20.0 + 5.0 * 0.15

/-- The constants of the standard observer. -/
def standard : Perception α where
  gamma := 2.2
  gammaInverse := 1.0 / 2.2
  smallest := 0.95 * (1.0 / 255.0) ^ (2.2 : α)
  sensitivity := ⟨15.0, 20.0, 5.0⟩
  mixing := standardMixing α
  mixingInverse := (standardMixing α).map (1.0 / ·)
  tinting := ⟨0.6, 1.0, 0.6⟩
  middleShare := 0.15
  dimmestShare := 0.15
  whiteIntensity := standardWhite α
  normalSensitivity := Triple.map (· / standardWhite α) ⟨15.0, 20.0, 5.0⟩
  lowestLimit := (5.0 / standardWhite α) ^ (1.0 / 2.2 : α)

end Standard

end Perception

/-- Numbers that colours are made of. -/
class ColorArith (α : Type) extends Arith α where
  perception : Perception α

export ColorArith (perception)

/-! ### The constants as terms of formulas -/

namespace Calc

variable {α : Type} [ColorArith α]

/-- The exponent from gamma-encoded channels to linear light. -/
@[inline] def gamma : Calc α := .ok perception.gamma

/-- The exponent from linear light to gamma-encoded channels. -/
@[inline] def gammaInverse : Calc α := .ok perception.gammaInverse

/-- The light below which there is no hue. -/
@[inline] def smallest : Calc α := .ok perception.smallest

/-- The sensitivity to a primary, relative to white. -/
@[inline] def sensitivity (k : Channel) : Calc α := .ok (perception.normalSensitivity.get k)

/-- The linearity of the hue where a primary mixes. -/
@[inline] def mixing (k : Channel) : Calc α := .ok (perception.mixing.get k)

/-- The inverse of that linearity. -/
@[inline] def mixingInverse (k : Channel) : Calc α := .ok (perception.mixingInverse.get k)

/-- The ability of a primary to tint white light. -/
@[inline] def tinting (k : Channel) : Calc α := .ok (perception.tinting.get k)

/-- The share of the middle primary in the perceived intensity. -/
@[inline] def middleShare : Calc α := .ok perception.middleShare

/-- The share of the dimmest primary in the perceived intensity. -/
@[inline] def dimmestShare : Calc α := .ok perception.dimmestShare

/-- The lowest of all intensity limits. -/
@[inline] def lowestLimit : Calc α := .ok perception.lowestLimit

end Calc

end Dichromat
