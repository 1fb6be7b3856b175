import Dichromat.Search.Error

/-!
# The state of a search

A `State` is the palette that one strategy works on, with its projection, its errors and the best
palette of the phase. `State.prepare` starts a phase; like every operation on states it is an
`Update`, so a state whose preparation was refused keeps what had been set before.
-/

namespace Dichromat

/-- The strategies of a search. -/
inductive Strategy
  | tabuSum | tabuMax | shake
  deriving DecidableEq, Repr

namespace Strategy

/-- The name of a strategy. -/
def name : Strategy → String
  | tabuSum => "tabu_sum"
  | tabuMax => "tabu_max"
  | shake => "shake"

/-- All strategies. -/
def all : List Strategy := [tabuSum, tabuMax, shake]

/-- How the errors of the colours add up for a strategy. -/
def mode : Strategy → Mode
  | tabuSum => .sum
  | _ => .max

/-- Whether a phase stops when no better palette turns up. -/
def watchesStalling : Strategy → Bool
  | tabuSum => true
  | _ => false

end Strategy

/-- What a state is doing. -/
inductive Phase
  | idle | prepared | exploring | done
  deriving DecidableEq, Repr

/-- The name of what a state is doing. -/
def Phase.name : Phase → String
  | idle => "idle"
  | prepared => "prepared"
  | exploring => "exploring"
  | done => "done"

/-- The signs of the directions that a colour's next move must not take, one for each channel; 0
forbids none. -/
abbrev Memory := List Int

/-- The memory that forbids nothing. -/
def Memory.free : Memory := Channel.all.map fun _ => 0

variable {α : Type} [ColorArith α]

/-- The state of a search. -/
structure State (α : Type) where
  strategy : Strategy
  /-- The buffers through which the colours of this state are projected. -/
  projector : Projector α
  phase : Phase
  iterated : Int
  bestIteration : Int
  /-- The best error of the phase; none is worse than every number. -/
  bestError : Option α
  bestPalette : List (Triple α)
  maxIterations : α
  stallLimit : α
  palette : List (Triple α)
  projected : List (Eye α)
  errors : List α
  memory : List Memory

/-- Whether an error is below the best one so far. -/
def isBelow (error : α) : Option α → Except Fault Bool
  | none => Arith.bounded error
  | some best => Comparable.lt error best

namespace State

/-- A state before its first phase. -/
def idle (deficiency : Deficiency) (strategy : Strategy) : State α where
  strategy
  projector := Projector.ofDeficiency deficiency
  phase := .idle
  iterated := 0
  bestIteration := 0
  bestError := none
  bestPalette := []
  maxIterations := Arith.whole 0
  stallLimit := Arith.whole 0
  palette := []
  projected := []
  errors := []
  memory := []

/-! ### Errors -/

/-- Projects every colour again and recomputes the errors. -/
def measure (ctx : Context α) : Update (State α) Unit := do
  let s ← get
  let (projected, projector) ← s.projector.projectAll s.palette
  modify fun s => { s with projected, projector }
  let errors ← colorErrors ctx projected
  modify fun s => { s with errors }

/-- The palette's error in the mode of the strategy. -/
def totalError (ctx : Context α) (upToDate : Bool) : Update (State α) α := do
  unless upToDate do measure ctx
  let s ← get
  s.strategy.mode.aggregate s.errors

/-! ### The best palette -/

/-- The iteration at which the phase ends if no better palette turns up. -/
def nextStallLimit (ctx : Context α) (s : State α) : Calc α :=
  if s.strategy.watchesStalling then do
    let period ← ctx.budget ctx.settings.stallingPeriod
    Arith.add (Arith.whole s.iterated) period
  else .ok s.maxIterations

/-- Puts off the end of the phase after a better palette was found. -/
def shiftStallLimit (ctx : Context α) : Update (State α) Unit := do
  let limit ← nextStallLimit ctx (← get)
  modify fun s => { s with stallLimit := limit }

/-- Keeps the working palette as the best one. -/
def recordBest (ctx : Context α) (error : α) : Update (State α) Unit := do
  modify fun s =>
    { s with bestError := some error, bestIteration := s.iterated, bestPalette := s.palette }
  shiftStallLimit ctx

/-! ### Phases -/

/-- The iterations that a phase of a strategy may take, some being spent already. -/
def iterationLimit (ctx : Context α) (strategy : Strategy) (spent : α) : Calc α :=
  match strategy.mode with
  | .sum => do Arith.sub (← ctx.searchDepth) spent
  | .max => ctx.budget ctx.settings.maxModeDuration

/-- Starts a phase from a palette. -/
def prepare (ctx : Context α) (source : List (Triple α)) (spent : α) :
    Update (State α) Unit := do
  let limit ← iterationLimit ctx (← get).strategy spent
  modify fun s =>
    { s with
      maxIterations := limit, iterated := 0, bestIteration := 0, palette := source
      bestPalette := source }
  let error ← totalError ctx false
  modify fun s => { s with bestError := some error }
  shiftStallLimit ctx
  modify fun s => { s with phase := .prepared }

end State

end Dichromat
