import Dichromat.Search.State

/-!
# Tabu search

A step tries to move every channel of every colour up and down (`State.candidates`) and applies
the first move of least gain (`Candidate.firstLeast`), even if it makes the palette worse; to undo
it is then forbidden for that colour. `State.exploreTabu` steps until the budget is spent or no
better palette has turned up for too long.
-/

namespace Dichromat

variable {α : Type} [ColorArith α]

open Calc

/-! ### Candidates -/

/-- The directions of a move along a channel. -/
inductive Direction
  | down | up
  deriving DecidableEq, Repr

namespace Direction

/-- Both directions, in the order in which they are tried. -/
def all : List Direction := [down, up]

/-- The sign of a direction. -/
def sign : Direction → Int
  | down => -1
  | up => 1

end Direction

/-- A move of one channel of one colour, with the colour and the error that it leads to. -/
structure Candidate (α : Type) where
  place : Nat
  channel : Channel
  direction : Direction
  color : Triple α
  error : α
  /-- What the move adds to the error of its colour. -/
  gain : α

/-- A channel moved by a step, within its range. -/
def moved (step value : α) (d : Direction) : Calc α :=
  let x : Calc α := value
  let size : Calc α := step
  min (max (x + whole d.sign * size) 0.0) 1.0

namespace Candidate

/-- The first candidate whose gain is less than that of all before it. -/
def firstLeast (candidates : List (Candidate α)) : Except Fault (Option (Candidate α)) :=
  candidates.foldlM
    (fun best c => do
      if ← isBelow c.gain (best.map Candidate.gain) then return some c else return best)
    none

/-- The memory that forbids to undo a move. -/
def memory (c : Candidate α) : Memory := Memory.free.set c.channel.index (-c.direction.sign)

end Candidate

/-- A computation that projects colours through the buffers that it is given. -/
abbrev Scan (α β : Type) := StateT (Projector α) (Except Fault) β

namespace State

/-- The moves of a colour in the order in which they are tried. -/
def moves : List (Channel × Direction) :=
  Channel.all.flatMap fun k => Direction.all.map fun d => (k, d)

/-- Whether a memory lets a channel move in a direction; it must have an entry for the channel. -/
def allows (m : Memory) (k : Channel) (d : Direction) : Except Fault Bool :=
  match m[k.index]? with
  | some sign => .ok (sign ≠ d.sign)
  | none => .error .outOfBounds

/-- The candidate of a move; its colour is seen through the buffers of the state. -/
def candidate (ctx : Context α) (s : State α) (place : Nat) (color : Triple α)
    (k : Channel) (d : Direction) : Scan α (Candidate α) := do
  let x ← moved ctx.settings.step (color.get k) d
  let color := color.set k x
  let projector ← (← get).project color
  set projector
  let error ← colorError ctx s.projected place projector.eye
  let some before := s.errors[place]? | throw .outOfBounds
  let gain ← Arith.sub error before
  return { place, channel := k, direction := d, color, error, gain }

/-- The candidate of a move that a memory allows. -/
def candidate? (ctx : Context α) (s : State α) (place : Nat) (color : Triple α) (m : Memory)
    (k : Channel) (d : Direction) : Scan α (Option (Candidate α)) := do
  if ← allows m k d then return some (← candidate ctx s place color k d) else return none

/-- The moves of a colour that its memory allows. -/
def candidatesOf (ctx : Context α) (s : State α) (color : Triple α) (place : Nat) :
    Scan α (List (Candidate α)) := do
  let some memory := s.memory[place]? | throw .outOfBounds
  let tried ← moves.mapM fun (k, d) => candidate? ctx s place color memory k d
  return tried.filterMap id

/-- All allowed moves, colour by colour, channel by channel, down before up. -/
def candidates (ctx : Context α) (s : State α) : Scan α (List (Candidate α)) := do
  let groups ← s.palette.zipIdx.mapM fun (color, place) => candidatesOf ctx s color place
  return groups.flatten

/-! ### A step -/

/-- What a step does: the place and the new colour, its error, and its memory. -/
structure Choice (α : Type) where
  place : Nat
  color : Triple α
  error : α
  memory : Memory

/-- The choice of a candidate. -/
def Choice.ofCandidate (c : Candidate α) : Choice α :=
  { place := c.place, color := c.color, error := c.error, memory := c.memory }

/-- The chosen candidate; without one the first colour stays and its error is taken for none. -/
def choose (first : Triple α) : Option (Candidate α) → Choice α
  | some c => .ofCandidate c
  | none =>
    { place := 0, color := first, error := Arith.decimal 0 0, memory := Memory.free }

/-- Refuses a place that a list does not have. -/
def requirePlace {β : Type} (xs : List β) (k : Nat) : Except Fault Unit :=
  if k < xs.length then .ok () else .error .outOfBounds

/-- Recomputes the error of a colour. -/
def refresh (ctx : Context α) (projected : List (Eye α)) (l : Nat) (eye : Eye α) :
    Update (State α) Unit := do
  let error ← colorError ctx projected l eye
  requirePlace (← get).errors l
  modify fun s => { s with errors := s.errors.set l error }

/-- Recomputes the errors of all colours but one, whose pairs have changed. -/
def refreshOthers (ctx : Context α) (place : Nat) : Update (State α) Unit := do
  let s ← get
  s.projected.zipIdx.forM fun (eye, l) =>
    if l = place then pure () else refresh ctx s.projected l eye

/-- Changes the colour and its projection. -/
def recolor (c : Choice α) : Update (State α) Unit := do
  modify fun s => { s with palette := s.palette.set c.place c.color }
  let some seen := (← get).projected[c.place]? | throw .outOfBounds
  let projector ← (← get).projector.project c.color
  let eye ← (Eye.copyEye projector.eye).apply seen
  modify fun s => { s with projector, projected := s.projected.set c.place eye }

/-- Brings all errors up to date, that of the changed colour from its choice. -/
def renewErrors (ctx : Context α) (c : Choice α) : Update (State α) Unit := do
  requirePlace (← get).errors c.place
  modify fun s => { s with errors := s.errors.set c.place c.error }
  refreshOthers ctx c.place

/-- Keeps the memory of the colour that was moved. -/
def remember (c : Choice α) : Update (State α) Unit := do
  requirePlace (← get).memory c.place
  modify fun s => { s with memory := s.memory.set c.place c.memory }

/-- Makes the move that was chosen. -/
def applyChoice (ctx : Context α) (c : Choice α) : Update (State α) Unit := do
  recolor c
  renewErrors ctx c
  remember c

/-- Applies the best allowed move of the palette. -/
def tabuStep (ctx : Context α) : Update (State α) Unit := do
  let s ← get
  match s.palette with
  | [] => return
  | first :: _ =>
    let (tried, projector) ← (candidates ctx s).run s.projector
    modify fun s => { s with projector }
    let best ← Candidate.firstLeast tried
    applyChoice ctx (choose first best)

/-! ### A phase -/

/-- Forgets all moves. -/
def resetMemory : Update (State α) Unit :=
  modify fun s => { s with memory := s.palette.map fun _ => Memory.free }

/-- Whether neither the budget is spent nor the search stalls. -/
def mayGoOn (s : State α) : Except Fault Bool := do
  let n : Calc α := whole s.iterated
  if ← lt n s.maxIterations then lt n s.stallLimit else return false

/-- One iteration: the palette's error is recorded if it is the best, then a step follows. -/
def iterate (ctx : Context α) : Update (State α) Unit := do
  let error ← totalError ctx true
  if ← isBelow error (← get).bestError then recordBest ctx error
  tabuStep ctx
  modify fun s => { s with iterated := s.iterated + 1 }

/-- Iterates while the phase may go on; `fuel` bounds the iterations. -/
def iterateWhile (ctx : Context α) : Nat → Update (State α) Unit
  | 0 => do if ← mayGoOn (← get) then throw .endless
  | fuel + 1 => do
    if ← mayGoOn (← get) then
      iterate ctx
      iterateWhile ctx fuel

/-- The iterations after which the budget of a phase is spent. -/
def iterationsLeft (s : State α) : Nat := (Arith.horizon s.maxIterations - s.iterated).toNat

/-- A phase of Tabu search. -/
def exploreTabu (ctx : Context α) : Update (State α) Unit := do
  modify fun s => { s with phase := .exploring }
  resetMemory
  iterateWhile ctx (iterationsLeft (← get))
  modify fun s => { s with phase := .done }

end State

end Dichromat
