import Dichromat.Settings
import Dichromat.Vision

/-!
# The context of a search

What all phases of a run share and none changes: the original palette as linear colours, the
distances among them as normal vision has them, the deficiency and the settings.
-/

namespace Dichromat

variable {α : Type} [ColorArith α]

/-- What a search is measured against: the original colours and their distances. -/
structure Context (α : Type) where
  original : List (Triple α)
  distances : List (List α)
  deficiency : Deficiency
  settings : Settings α

/-- The perceptual distances among linear colours, row by row. -/
def distanceMatrix (colors : List (Triple α)) : Except Fault (List (List α)) := do
  let eyes ← colors.mapM (Eye.ofLinear .perceived)
  eyes.mapM fun a => eyes.mapM fun b => a.distance b

namespace Context

/-- The context of linear colours. -/
def ofLinear (original : List (Triple α)) (deficiency : Deficiency) (settings : Settings α) :
    Except Fault (Context α) := do
  let distances ← distanceMatrix original
  return { original, distances, deficiency, settings }

/-- The context of a gamma-encoded palette. -/
def ofGamma (palette : List (List α)) (deficiency : Deficiency) (settings : Settings α) :
    Except Fault (Context α) := do
  let original ← palette.mapM linearOfGammaColor
  ofLinear original deficiency settings

/-- The number of colours. -/
def size (ctx : Context α) : Nat := ctx.original.length

/-- A budget for each colour, for the whole palette. -/
def budget (ctx : Context α) (perColor : α) : Calc α := Arith.mul perColor (Arith.whole ctx.size)

/-- The iterations that a run may take. -/
def searchDepth (ctx : Context α) : Calc α := ctx.budget ctx.settings.depthPerColor

/-- The original distances from a colour; a negative place counts from the end. -/
def row (ctx : Context α) (k : Int) : Except Fault (List α) :=
  let place := if k < 0 then k + ctx.distances.length else k
  match if place < 0 then none else ctx.distances[place.toNat]? with
  | some distances => .ok distances
  | none => .error .outOfBounds

end Context

end Dichromat
