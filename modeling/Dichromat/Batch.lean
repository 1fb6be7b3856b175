import Dichromat.Optimizer

/-!
# Batches of palettes

`Batch.optimizeBy` optimizes several palettes with the same settings. The runs may complete in any
order; each outcome is stored at the place of its palette, and progress is told after each.
-/

namespace Dichromat.Batch

/-- The optimized palette, or none where the run was refused its input or failed in arithmetic. -/
def settle (outcome : Except Fault (List (Triple Int))) :
    Except Fault (Option (List (Triple Int))) :=
  match outcome with
  | .ok palette => .ok (some palette)
  | .error e => if e.isRefusal || e.isArithmetic then .ok none else .error e

/-- What is known of a batch. -/
structure Progress where
  /-- The palettes at their places; none where a run has not completed or has failed. -/
  palettes : List (Option (List (Triple Int)))
  /-- How many runs had completed, and how many there are, after each completion. -/
  told : List (Nat × Nat)

namespace Progress

/-- A batch of which no run has completed. -/
def start (total : Nat) : Progress := { palettes := List.replicate total none, told := [] }

/-- Takes in the outcome of the run at a place. -/
def complete (p : Progress) (place : Nat) (palette : Option (List (Triple Int))) : Progress where
  palettes := p.palettes.set place palette
  told := p.told ++ [(p.told.length + 1, p.palettes.length)]

end Progress

/-- The outcomes of the runs, taken in in the order in which they complete. -/
def collect (outcomes : List (Except Fault (List (Triple Int)))) (order : List Nat) :
    Except Fault Progress :=
  order.foldlM
    (fun p place =>
      match outcomes[place]? with
      | none => .ok p
      | some outcome => (settle outcome).map (p.complete place))
    (Progress.start outcomes.length)

/-- The number of workers must be above 0; null leaves it open. -/
def requireWorkers : Value → Except Fault Unit
  | .null => .ok ()
  | workers => do if ← Value.le workers (.int 0) then throw .noWorkers

/-- Optimizes palettes with a number of workers, whose runs complete in the given order and count
with the numbers as which values are read. -/
def optimizeBy {α : Type} [ColorArith α] (read : Value → α) (palettes : List Value) (name : Value)
    (settings : Settings Value) (workers : Value) (order : List Nat) : Except Fault Progress := do
  if palettes.isEmpty then return Progress.start 0
  let deficiency ← Deficiency.ofValue name
  requireWorkers workers
  let outcomes := palettes.map fun palette =>
    (Dichromat.optimizeBy read palette (.text deficiency.name) settings none).map Result.palette
  collect outcomes order

/-- Optimizes palettes in runs that count with the values as they are. -/
def optimize (palettes : List Value) (name : Value) (settings : Settings Value) (workers : Value)
    (order : List Nat) : Except Fault Progress :=
  optimizeBy id palettes name settings workers order

end Dichromat.Batch
