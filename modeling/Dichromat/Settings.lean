import Dichromat.Value.Number

/-!
# Settings of the search

`Settings` holds the budgets and step sizes of a search. They come from a table without any check
(`Settings.ofTable`); `Settings.validate` refuses budgets that are not positive and steps outside
0 to 1. The other fields are used as they are.
-/

namespace Dichromat

/-- The settings of a run. -/
structure Settings (α : Type) where
  /-- Iterations of a run for each colour of the palette. -/
  depthPerColor : α
  /-- Iterations for each colour without a new best after which a Sum phase stops. -/
  stallingPeriod : α
  /-- Iterations of a Max phase for each colour. -/
  maxModeDuration : α
  /-- The size of a move on a linear channel. -/
  step : α
  /-- The error of a pair whose projected distance has collapsed. -/
  collapsePenalty : α
  /-- Original distances up to this one count as none. -/
  zeroDistanceThreshold : α
  /-- The largest shift of a hue by a shake. -/
  shakeHueRange : α
  /-- The lowest purity and intensity after a shake. -/
  shakeFloor : α
  /-- The range of purity and intensity after a shake. -/
  shakeSpan : α
  /-- The seed of the random draws, if it is given. -/
  seed : Value

namespace Settings

/-- The settings with other numbers; the seed is kept. -/
def map {α β : Type} (f : α → β) (s : Settings α) : Settings β where
  depthPerColor := f s.depthPerColor
  stallingPeriod := f s.stallingPeriod
  maxModeDuration := f s.maxModeDuration
  step := f s.step
  collapsePenalty := f s.collapsePenalty
  zeroDistanceThreshold := f s.zeroDistanceThreshold
  shakeHueRange := f s.shakeHueRange
  shakeFloor := f s.shakeFloor
  shakeSpan := f s.shakeSpan
  seed := s.seed

section

variable {α : Type} [Arith α]

/-- The settings where nothing else is said. -/
def standard : Settings α where
  depthPerColor := Arith.whole 4000
  stallingPeriod := Arith.whole 8
  maxModeDuration := Arith.whole 4
  step := Arith.ratio 2 256
  collapsePenalty := Arith.decimal 65536 0
  zeroDistanceThreshold := Arith.decimal 1 3
  shakeHueRange := Arith.ratio 1 6
  shakeFloor := Arith.decimal 1 1
  shakeSpan := Arith.decimal 8 1
  seed := .null

instance : Inhabited (Settings α) := ⟨standard⟩

/-! ### Checks -/

/-- Refuses a number that is not above 0. -/
def requirePositive (fault : String → Fault) (value : α) : Except Fault Unit := do
  if ← Comparable.le value (Arith.whole 0) then throw (fault (← Arith.shown value))

/-- Checks the settings in the order of their fields. -/
def validate (s : Settings α) : Except Fault Unit := do
  requirePositive (.budgetNotPositive "depth_per_color") s.depthPerColor
  requirePositive (.budgetNotPositive "stalling_period") s.stallingPeriod
  requirePositive (.budgetNotPositive "max_mode_duration") s.maxModeDuration
  let positive ← Comparable.lt (Arith.whole 0) s.step
  let fits ← if positive then Comparable.le s.step (Arith.whole 1) else pure false
  unless fits do throw (.stepOutOfRange (← Arith.shown s.step))
  requirePositive .penaltyNotPositive s.collapsePenalty

end

/-! ### Tables -/

/-- The fields with their keys, in their order. -/
def toTable (s : Settings Value) : List (String × Value) :=
  [("depth_per_color", s.depthPerColor), ("stalling_period", s.stallingPeriod),
    ("max_mode_duration", s.maxModeDuration), ("step", s.step),
    ("collapse_penalty", s.collapsePenalty),
    ("zero_distance_threshold", s.zeroDistanceThreshold),
    ("shake_hue_range", s.shakeHueRange), ("shake_floor", s.shakeFloor),
    ("shake_span", s.shakeSpan), ("seed", s.seed)]

/-- The standard settings with the fields that a table gives; other keys are ignored. -/
def ofTable (table : List (String × Value)) : Settings Value :=
  let get := fun key fallback => (Value.field? key table).getD fallback
  let standard : Settings Value := standard
  { depthPerColor := get "depth_per_color" standard.depthPerColor
    stallingPeriod := get "stalling_period" standard.stallingPeriod
    maxModeDuration := get "max_mode_duration" standard.maxModeDuration
    step := get "step" standard.step
    collapsePenalty := get "collapse_penalty" standard.collapsePenalty
    zeroDistanceThreshold := get "zero_distance_threshold" standard.zeroDistanceThreshold
    shakeHueRange := get "shake_hue_range" standard.shakeHueRange
    shakeFloor := get "shake_floor" standard.shakeFloor
    shakeSpan := get "shake_span" standard.shakeSpan
    seed := get "seed" standard.seed }

theorem ofTable_toTable (s : Settings Value) : ofTable s.toTable = s := rfl

end Settings

end Dichromat
