import Dichromat.Search.Context

/-!
# The error of a palette

A pair of colours costs an error if the dichromat sees it closer than normal vision does
(`pairError`). The error of a colour is the sum over its pairs (`colorError`), the error of a
palette the sum or the maximum over its colours (`Mode.aggregate`).
-/

namespace Dichromat

variable {α : Type} [ColorArith α]

open Calc

/-- The error of a pair: none from a ratio of the distances of 1 on, the penalty where the
projected distance has collapsed. -/
def pairError (projected original threshold penalty : α) : Calc α := do
  let near ← Comparable.le original threshold
  let difference : Calc α :=
    if near then projected
    else Arith.div projected original - 1
  if ← le 0 difference then 0.0
  else if ← le difference (-1) then penalty
  else 1 / (1 + difference) - 1

/-- The errors of the pairs of a colour with the colours from place `l` on, added to a sum. -/
def addPairErrors (settings : Settings α) (distances : List α) (k : Int) (eye : Eye α) :
    Nat → List (Eye α) → α → Calc α
  | _, [], sum => .ok sum
  | l, other :: rest, sum =>
    if (l : Int) = k then addPairErrors settings distances k eye (l + 1) rest sum
    else do
      let projected ← eye.distance other
      let some original := distances[l]? | .error .outOfBounds
      let error ←
        pairError projected original settings.zeroDistanceThreshold settings.collapsePenalty
      addPairErrors settings distances k eye (l + 1) rest (← Arith.add sum error)

/-- The error that the colour at place `k` would have if it were seen as `eye`. -/
def colorError (ctx : Context α) (projected : List (Eye α)) (k : Int) (eye : Eye α) : Calc α := do
  let distances ← ctx.row k
  addPairErrors ctx.settings distances k eye 0 projected (Arith.decimal 0 0)

/-- How the errors of colours add up to that of a palette. -/
inductive Mode
  | sum | max
  deriving DecidableEq, Repr

namespace Mode

/-- The name of a mode. -/
def name : Mode → String
  | sum => "sum"
  | max => "max"

/-- The error of a palette; an empty one has none. -/
def aggregate (mode : Mode) : List α → Calc α
  | [] => 0.0
  | first :: rest =>
    match mode with
    | sum => (first :: rest).foldlM Arith.add (Arith.whole 0)
    | max => rest.foldlM (fun a b : α => Calc.max a b) first

end Mode

/-- The error of every colour of a projected palette. -/
def colorErrors (ctx : Context α) (projected : List (Eye α)) : Except Fault (List α) :=
  projected.zipIdx.mapM fun (eye, k) => colorError ctx projected k eye

/-- The error of a linear palette against the original one. -/
def paletteError (ctx : Context α) (palette : List (Triple α)) (mode : Mode) : Calc α := do
  let (projected, _) ← (Projector.ofDeficiency ctx.deficiency).projectAll palette
  let errors ← colorErrors ctx projected
  mode.aggregate errors

end Dichromat
