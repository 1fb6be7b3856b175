import Dichromat.Palette
import Dichromat.Search.Explore

/-!
# Optimization of a palette

A `Run` alternates phases within the iteration budget: a Sum phase of Tabu search, a disturbance,
which is a Max phase or a shake in turn, a Sum phase, and so on. Only Sum phases give the best
palette of the run. `optimize` runs on numbers; `optimizeBy` checks values of any shape first, and
counts with the numbers as which they are read, which for `optimizeValue` are the values
themselves.
-/

namespace Dichromat

variable {α : Type} [ColorArith α]

/-- What a phase was, and the errors of its first and of its best palette. -/
structure PhaseRecord (α : Type) where
  strategy : Strategy
  iterations : Int
  errorBefore : Option α
  errorAfter : Option α

/-- What a run gives. -/
structure Result (α : Type) where
  palette : List (Triple Int)
  initialError : α
  /-- The Sum error of the best palette; none if no phase has found one. -/
  bestError : Option α
  iterations : Int
  /-- The iteration at which the best palette was found. -/
  bestIteration : Int
  phases : List (PhaseRecord α)
  /-- The best error of the run after each Sum phase. -/
  history : List (Option α)

/-- Whether a best error is below the initial one. -/
def isImprovement (initial : α) : Option α → Except Fault Bool
  | none => .ok false
  | some best => Comparable.lt best initial

/-- Whether a run has found a better palette than it began with. -/
def Result.improved (r : Result α) : Except Fault Bool := isImprovement r.initialError r.bestError

/-! ### A run -/

/-- The state of a run: its three searches, the draws that are left, and the best palette so far. -/
structure Run (α : Type) where
  sum : State α
  max : State α
  shaker : State α
  draws : Draws α
  spent : Int
  /-- Whether the last disturbance was a Max phase. -/
  disturbedByMax : Bool
  bestError : Option α
  bestPalette : List (Triple α)
  bestIteration : Int
  phases : List (PhaseRecord α)
  history : List (Option α)

namespace Run

/-- A run before its first phase. -/
def start (ctx : Context α) (draws : Draws α) : Except Fault (Run α) := do
  let idle : Strategy → State α := State.idle ctx.deficiency
  let sum ← (State.prepare ctx ctx.original (Arith.whole 0)).apply (idle .tabuSum)
  return {
    sum, max := idle .tabuMax, shaker := idle .shake, draws
    spent := 0, disturbedByMax := false
    bestError := none, bestPalette := ctx.original, bestIteration := 0
    phases := [], history := [] }

/-- Explores a prepared state, with the record of the phase. -/
def explorePhase (ctx : Context α) (s : State α) (draws : Draws α) :
    Except Fault (State α × Draws α × PhaseRecord α) := do
  let (t, draws) ← (State.explore ctx).apply (s, draws)
  let record : PhaseRecord α :=
    { strategy := t.strategy, iterations := t.iterated, errorBefore := s.bestError
      errorAfter := t.bestError }
  return (t, draws, record)

/-- Whether an error, if there is one, is below the best one of the run. -/
def improves : Option α → Option α → Except Fault Bool
  | some error, best => isBelow error best
  | none, _ => .ok false

/-- A Sum phase; its best palette becomes that of the run if it is better. -/
def searchPhase (ctx : Context α) (run : Run α) : Except Fault (Run α) := do
  let (sum, draws, record) ← explorePhase ctx run.sum run.draws
  let phases := run.phases ++ [record]
  let spent := run.spent + sum.iterated
  if ← improves sum.bestError run.bestError then
    return { run with
      sum, draws, phases, spent
      bestError := sum.bestError, bestPalette := sum.bestPalette
      bestIteration := run.spent + sum.bestIteration
      history := run.history ++ [sum.bestError] }
  else
    return { run with sum, draws, phases, spent, history := run.history ++ [run.bestError] }

/-- A disturbance, from the best palette of the last Sum phase for a Max phase, and from the best
one of the run for a shake; the next Sum phase starts from its best palette. -/
def disturb (ctx : Context α) (run : Run α) : Except Fault (Run α) := do
  let byMax := !run.disturbedByMax
  let start := Arith.whole run.spent
  let prepared ←
    if byMax then (State.prepare ctx run.sum.bestPalette start).apply run.max
    else (State.prepare ctx run.bestPalette start).apply run.shaker
  let (disturbed, draws, record) ← explorePhase ctx prepared run.draws
  let spent := run.spent + disturbed.iterated
  let sum ← (State.prepare ctx disturbed.bestPalette (Arith.whole spent)).apply run.sum
  let run := { run with
    sum, draws, spent, disturbedByMax := byMax, phases := run.phases ++ [record] }
  return if byMax then { run with max := disturbed } else { run with shaker := disturbed }

/-- The phases of a run while its budget lasts; `fuel` bounds the number of Sum phases. -/
def alternate (ctx : Context α) (depth : α) : Nat → Run α → Except Fault (Run α)
  | 0, run => do
    if ← Comparable.lt (Arith.whole run.spent) depth then throw .endless
    return run
  | fuel + 1, run => do
    if ← Comparable.lt (Arith.whole run.spent) depth then
      let run ← searchPhase ctx run
      if ← Comparable.le depth (Arith.whole run.spent) then return run
      let run ← disturb ctx run
      alternate ctx depth fuel run
    else return run

end Run

/-! ### Optimization -/

/-- Searches the best palette within the budget of a context; with it comes what is left of the
draws. -/
def Context.optimize (ctx : Context α) (draws : Draws α) :
    Except Fault (Result α × Draws α) := do
  if ctx.original.isEmpty then
    let zero : α := Arith.decimal 0 0
    return ({ palette := [], initialError := zero, bestError := some zero, iterations := 0
              bestIteration := 0, phases := [], history := [] }, draws)
  let depth ← ctx.searchDepth
  let run ← Run.start ctx draws
  let some initialError := run.sum.bestError | .error (.notPrepared run.sum.phase.name)
  if ← Comparable.le initialError (Arith.whole 0) then
    let palette ← ctx.original.mapM gammaOfLinearColor
    return ({ palette, initialError, bestError := some initialError, iterations := 0
              bestIteration := 0, phases := [], history := [] }, draws)
  let run ← Run.alternate ctx depth (2 * Arith.horizon depth + 2) run
  let palette ← run.bestPalette.mapM gammaOfLinearColor
  return ({ palette, initialError, bestError := run.bestError, iterations := run.spent
            bestIteration := run.bestIteration, phases := run.phases
            history := run.history }, run.draws)

/-- Optimizes a gamma-encoded palette. -/
def optimize (palette : Palette α) (deficiency : Deficiency) (settings : Settings α)
    (draws : Draws α) : Except Fault (Result α × Draws α) := do
  settings.validate
  let ctx ← Context.ofGamma palette deficiency settings
  ctx.optimize draws

/-! ### Values of any shape -/

/-- A deficiency given by its name, which must be text. -/
def Deficiency.ofValue : Value → Except Fault Deficiency
  | .text s => Deficiency.ofName s
  | _ => .error .noSuchOperation

/-- A deficiency given by exactly its name. -/
def Deficiency.ofExactName (v : Value) : Except Fault Deficiency :=
  match [Deficiency.none, .red, .green].find? fun d => v.same (.text d.name) with
  | some d => .ok d
  | Option.none => .error (.notDeficiency v.quoted)

/-- A strategy given by exactly its name. -/
def Strategy.ofExactName (v : Value) : Except Fault Strategy :=
  match Strategy.all.find? fun s => v.same (.text s.name) with
  | some s => .ok s
  | none => .error (.notStrategy v.quoted)

/-- Optimizes a palette after all checks: of the palette, of the settings, of the name, and of the
seed where no draws are given. What has been checked is read as the numbers that are counted with.
-/
def optimizeBy (read : Value → α) (palette name : Value) (settings : Settings Value)
    (draws? : Option (Draws α)) : Except Fault (Result α) := do
  let colors ← Palette.validate palette
  settings.validate
  let deficiency ← Deficiency.ofValue name
  let ctx ← Context.ofGamma (colors.map fun color => color.map read) deficiency (settings.map read)
  let draws ← Draws.orSeed draws? settings.seed
  let (result, _) ← ctx.optimize draws
  return result

/-- Optimizes a palette after all checks, with the values as they are. -/
def optimizeValue (palette name : Value) (settings : Settings Value)
    (draws? : Option (Draws Value)) : Except Fault (Result Value) :=
  optimizeBy id palette name settings draws?

end Dichromat
