import Dichromat.Color.Rgb

/-!
# Perceptual colours

An `Eye` holds a rainbow hue, a purity and an intensity, either as the eye perceives it or
normalized to the highest intensity that the hue and purity admit (`Eye.limit`, remembered
with the colour). `Eye.readLinear` and `Eye.toLinear` lead from linear RGB and back.
-/

namespace Dichromat

variable {α : Type} [ColorArith α]

open Calc

/-! ### From linear RGB -/

/-- Linear channels split at the lowest one into white light and the light of the two anchors
around it. -/
structure Tint (α : Type) where
  first : Channel
  second : Channel
  white : α
  firstLight : α
  secondLight : α
  light : α

namespace Tint

/-- Takes linear channels apart. -/
def ofLinear (c : Triple α) : Except Fault (Tint α) := do
  let lowest ← c.lowest
  let (first, second) := lowest.anchors
  let secondLight ← c.term second - c.term lowest
  let firstLight ← c.term first - c.term lowest
  let light ← Arith.add firstLight secondLight
  return { first, second, white := c.get lowest, firstLight, secondLight, light }

/-- Black, grey or white, up to quantization noise. -/
def isGrey (t : Tint α) : Except Fault Bool :=
  let light : Calc α := t.light
  lt light smallest

/-- The hue: the share of the second anchor, warped as the eye feels mixtures. -/
def hue (t : Tint α) : Calc α := do
  let share : Calc α := Arith.div t.secondLight t.light
  let d : Calc α :=
    if ← lt share (ratio 1 2) then pow (2 * share) (mixing t.first) / 2
    else pow (2 * share - 1) (mixingInverse t.second) / 2 + ratio 1 2
  (whole t.first.index + d) / 3

/-- The purity: how far the anchors tint the white light. -/
def purity (t : Tint α) : Calc α :=
  let x : Calc α := t.firstLight
  let y : Calc α := t.secondLight
  let w := x * tinting t.first + y * tinting t.second
  w / (t.white + w)

end Tint

/-- Intensities as the eye adds up the primaries: all of the brightest, a share of the others. -/
def brightness (c : Triple α) : Calc α := do
  let red ← sensitivity .red * c.term .red
  let green ← sensitivity .green * c.term .green
  let blue ← sensitivity .blue * c.term .blue
  let parts : Triple α := ⟨red, green, blue⟩
  let order ← parts.order
  parts.term order.lowest * dimmestShare + parts.term order.middle * middleShare +
    parts.term order.highest

/-- The absolute intensity of linear channels. -/
def perceivedIntensity (c : Triple α) : Calc α := pow (brightness c) gammaInverse

/-- The highest channel is the ratio between the intensity and its limit. -/
def normalizedIntensity (c : Triple α) : Calc α := do
  let h ← c.highest
  pow (c.term h) gammaInverse

/-! ### To linear RGB -/

/-- An intensity of either kind. -/
inductive Level (α : Type)
  | absolute (i : α)
  | relative (j : α)

/-- The number of an intensity. -/
def Level.value : Level α → α
  | absolute i => i
  | relative j => j

/-- The share of the second anchor in the light of a hue. -/
def anchorShare (hue : α) (first second : Channel) : Calc α := do
  let r : Calc α := hue
  let d := min (max (3 * r - whole first.index) 0.0) 1.0
  if ← lt d (ratio 1 2) then pow (2 * d) (mixingInverse first) / 2
  else pow (2 * d - 1) (mixing second) / 2 + ratio 1 2

/-- Whether only the first anchor gives light: a pure primary, or next to no light at all. -/
def isDegenerate (share purity level : α) : Except Fault Bool := do
  let noise : Calc α := smallest
  if ← lt share noise then
    if ← lt (1 - noise) purity then return true
  lt level noise

/-- The linear channels of a hue and purity at an intensity. -/
def linearOfHue (hue purity : α) (level : Level α) : Except Fault (Triple α) := do
  let order ← hueOrder hue
  let (first, second) := order.lowest.anchors
  let d ← anchorShare hue first second
  let black : Triple α := Triple.replicate (Arith.decimal 0 0)
  if ← isDegenerate d purity level.value then
    let light : Calc α := pow (max level.value 0.0) gamma
    let x ← match level with
      | .absolute _ => light / sensitivity first
      | .relative _ => light
    return black.set first x
  let d : Calc α := d
  let p : Calc α := purity
  let s := (1 - p) * (d * tinting second + (1 - d) * tinting first)
  let t := p * d
  let u := s + t
  let lowestRatio ← s / u
  let firstRatio ← (p - t) / u + .ok lowestRatio
  let ratios : Triple α :=
    ((black.set order.lowest lowestRatio).set first firstRatio).set second (Arith.decimal 1 0)
  let (firstLight, secondLight) ← match level with
    | .absolute i => do
      let y ← pow i gamma / brightness ratios
      let x ← Arith.mul y firstRatio
      pure (x, y)
    | .relative j => do
      let light ← pow j gamma
      if order.highest = second then
        let x ← Arith.mul light firstRatio
        pure (x, light)
      else
        let y ← Arith.div light firstRatio
        pure (light, y)
  let lowestLight ← Arith.mul secondLight lowestRatio
  return ((black.set second secondLight).set first firstLight).set order.lowest lowestLight

/-- The highest intensity at which a hue and purity stay within RGB: at the lowest of all limits
the colour is not black, and its highest channel tells how far it is from its own limit. -/
def intensityLimit (hue purity : α) : Calc α := do
  let c ← linearOfHue hue purity (.absolute perception.lowestLimit)
  let h ← c.highest
  lowestLimit / pow (c.term h) gammaInverse

/-! ### Colours -/

/-- A colour as the eye feels it. It remembers the intensity limit that was found last. -/
structure Eye (α : Type) where
  space : EyeSpace
  hue : α
  purity : α
  /-- The intensity where the space is `perceived`. -/
  perceived : α
  /-- The intensity where the space is `normalized`. -/
  normalized : α
  /-- The hue and purity for which `knownLimit` is the intensity limit. -/
  knownHue : α
  knownPurity : α
  knownLimit : α
  deriving Repr

namespace Eye

/-- A colour before anything is known of it, with no limit that it could remember. -/
def blank (space : EyeSpace) : Eye α where
  space
  hue := Arith.decimal 0 0
  purity := Arith.decimal 0 0
  perceived := Arith.decimal 0 0
  normalized := Arith.decimal 0 0
  knownHue := Arith.ratio (-1) 1
  knownPurity := Arith.ratio (-1) 1
  knownLimit := Arith.decimal 0 0

/-- The intensity, in the measure of the space. -/
def level (e : Eye α) : Level α :=
  match e.space with
  | .perceived => .absolute e.perceived
  | .normalized => .relative e.normalized

/-- Takes over linear channels: hue, purity, and the intensity of the space. -/
def readLinear (c : Triple α) : Update (Eye α) Unit := do
  let t ← Tint.ofLinear c
  if ← t.isGrey then
    modify fun e => { e with hue := Arith.ratio 1 2, purity := Arith.decimal 0 0 }
  else
    let r ← t.hue
    modify fun e => { e with hue := r }
    let p ← t.purity
    modify fun e => { e with purity := p }
  match (← get).space with
  | .perceived =>
    let i ← perceivedIntensity c
    modify fun e => { e with perceived := i }
  | .normalized =>
    let j ← normalizedIntensity c
    modify fun e => { e with normalized := j }

/-- The colour of linear channels. -/
def ofLinear (space : EyeSpace) (c : Triple α) : Except Fault (Eye α) :=
  (readLinear c).apply (blank space)

/-- The linear channels of a colour. -/
def toLinear (e : Eye α) : Except Fault (Triple α) := linearOfHue e.hue e.purity e.level

/-! ### The intensity limit -/

/-- The remembered limit, if it is that of the present hue and purity. -/
def remembered? (e : Eye α) : Option α :=
  if Arith.same e.knownHue e.hue && Arith.same e.knownPurity e.purity then some e.knownLimit
  else none

/-- Reads the intensity limit and remembers it. -/
def readLimit : Update (Eye α) α := do
  let e ← get
  match e.remembered? with
  | some limit => return limit
  | none =>
    let limit ← intensityLimit e.hue e.purity
    set { e with knownLimit := limit, knownHue := e.hue, knownPurity := e.purity }
    return limit

/-- The highest intensity that the hue and purity can have within RGB. -/
def limit (e : Eye α) : Calc α := (readLimit.runOn e).1

/-- The colour as reading its limit leaves it. -/
def withKnownLimit (e : Eye α) : Eye α := (readLimit.runOn e).2

/-- Reads the absolute intensity, whatever the space. -/
def readIntensity : Update (Eye α) α := do
  let e ← get
  match e.space with
  | .perceived => return e.perceived
  | .normalized =>
    let limit ← readLimit
    (e.normalized * limit : Calc α)

/-- The absolute intensity, whatever the space. -/
def intensity (e : Eye α) : Calc α := (readIntensity.runOn e).1

/-! ### Changes -/

/-- Takes over another perceptual colour, with its intensity converted into this one's space. -/
def copyEye (source : Eye α) : Update (Eye α) Unit := do
  let space := (← get).space
  set { source with space }
  match space, source.space with
  | .perceived, .normalized =>
    let limit ← readLimit
    let i ← (source.normalized * limit : Calc α)
    modify fun e => { e with perceived := i }
  | .normalized, .perceived =>
    let j ← (source.perceived / source.limit : Calc α)
    modify fun e => { e with normalized := j }
  | _, _ => return

/-- Turns the hue into 0 to 1, and brings purity and intensity into their ranges. -/
def confine : Update (Eye α) Unit := do
  let e ← get
  let r : Calc α := e.hue
  if ← lt r 0 then
    let turned ← (1 - fract (-r) : Calc α)
    modify fun e => { e with hue := turned }
  else if ← lt 1 r then
    let turned ← fract r
    modify fun e => { e with hue := turned }
  let p : Calc α := e.purity
  let p ← min (max p 0.0) 1.0
  modify fun e => { e with purity := p }
  match e.space with
  | .perceived =>
    let i : Calc α := e.perceived
    if ← lt i 0 then
      modify fun e => { e with perceived := Arith.decimal 0 0 }
    else
      let limit ← readLimit
      if ← lt limit i then
        modify fun e => { e with perceived := limit }
  | .normalized =>
    let j : Calc α := e.normalized
    let j ← min (max j 0.0) 1.0
    modify fun e => { e with normalized := j }

end Eye

/-! ### Distance -/

/-- The cosine of the angle between the slices of two hues: a sixth of a turn apart, a primary and
its closest secondary, they differ as much as can be felt. -/
def sliceCosine (a b : α) : Calc α := do
  let a : Calc α := a
  let b : Calc α := b
  let below ← lt a b
  let low := if below then a else b
  let high := if below then b else a
  let gap := min (6 * min (high - low) (1 + low - high)) 1.0
  (2 - gap * gap) / 2

/-- The place of a colour on its slice: the intensity is the radius, purity the angle. -/
def slicePoint (intensity purity : α) : Except Fault (α × α) := do
  let i : Calc α := intensity
  let angle := pi / 3 * (purity : Calc α)
  let x ← i * sin angle
  let y ← i * cos angle
  return (x, y)

/-- The distance of two places on slices apart by an angle. -/
def sliceDistance (cosine : α) (p q : α × α) : Calc α := do
  let c : Calc α := cosine
  let radius : Calc α := q.1
  let x := p.1 - radius * c
  let y := p.2 - (q.2 : Calc α)
  let z := radius * sqrt (max 0.0 (1 - c * c))
  sqrt (x * x + y * y + z * z)

namespace Eye

/-- How far apart two colours feel: the distance of their places on their slices. -/
def distance (a b : Eye α) : Calc α := do
  let cosine ← sliceCosine a.hue b.hue
  let p ← slicePoint (← a.intensity) a.purity
  let q ← slicePoint (← b.intensity) b.purity
  sliceDistance cosine p q

/-- Reads the distance; both colours remember their limits where their intensity hangs on it. -/
def readDistance : Update (Eye α × Eye α) α := do
  let (a, b) ← get
  let cosine ← sliceCosine a.hue b.hue
  let (i, a') := readIntensity.runOn a
  set (a', b)
  let p ← slicePoint (← i) a.purity
  let (i, b') := readIntensity.runOn b
  set (a', b')
  let q ← slicePoint (← i) b.purity
  sliceDistance cosine p q

end Eye

end Dichromat
