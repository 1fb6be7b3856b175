import Dichromat.Random.Draws
import Dichromat.Search.Tabu

/-!
# Exploration

A shake disturbs hue, purity and intensity of every colour once, at random
(`State.exploreShake`). `State.explore` runs the strategy of a prepared state.
-/

namespace Dichromat

variable {α : Type} [ColorArith α]

open Calc

namespace State

/-- A hue shifted either way, as far as a draw from 0 to 1 says. -/
def shiftedHue (settings : Settings α) (draw hue : α) : Calc α :=
  let r : Calc α := hue
  let range : Calc α := settings.shakeHueRange
  let u : Calc α := draw
  r + range * (1 - 2 * u)

/-- A purity or intensity drawn to the middle of its range. -/
def squeezed (settings : Settings α) (value : α) : Calc α :=
  let x : Calc α := value
  let floor : Calc α := settings.shakeFloor
  let span : Calc α := settings.shakeSpan
  floor + span * x

/-- A colour with its hue shifted by a draw, and its intensity and purity squeezed. -/
def shaken (settings : Settings α) (draw : α) (e : Eye α) : Except Fault (Eye α) := do
  let hue ← shiftedHue settings draw e.hue
  let normalized ← squeezed settings e.normalized
  let purity ← squeezed settings e.purity
  Eye.confine.apply { e with hue, normalized, purity }

/-- Shakes the colour at a place; a number is drawn once the colour is known. -/
def shakeColor (ctx : Context α) (place : Nat) : Update (State α × Draws α) Unit := do
  let (s, draws) ← get
  match s.palette[place]? with
  | none => return
  | some color =>
    let eye ← Eye.ofLinear .normalized color
    let (u, draws) := draws.draw
    set (s, draws)
    let eye ← shaken ctx.settings u eye
    let color ← eye.toLinear
    set ({ s with palette := s.palette.set place color }, draws)

/-- Runs an operation on the state alone. -/
def onState {β : Type} (u : Update (State α) β) : Update (State α × Draws α) β := do
  let (s, draws) ← get
  let (outcome, s) := u.runOn s
  set (s, draws)
  outcome

/-- A shake: every colour is shaken once, and the outcome is the best palette of the phase. -/
def exploreShake (ctx : Context α) : Update (State α × Draws α) Unit := do
  onState (modify fun s => { s with phase := .exploring })
  (List.range (← get).1.palette.length).forM (shakeColor ctx)
  onState do
    modify fun s => { s with bestPalette := s.palette }
    let error ← totalError ctx false
    modify fun s => { s with bestError := some error, phase := .done }

/-- Runs the strategy of a prepared state. -/
def explore (ctx : Context α) : Update (State α × Draws α) Unit := do
  let (s, _) ← get
  if s.phase ≠ .prepared then throw (.notPrepared s.phase.name)
  match s.strategy with
  | .shake => exploreShake ctx
  | _ => onState (exploreTabu ctx)

end State

end Dichromat
