import Dichromat.CommandLine.Arguments
import Dichromat.CommandLine.Report
import Dichromat.Image
import Dichromat.Settings.Load

/-!
# The command

`runOn` optimizes the colours of a command line and gives what is printed: the colours one in a
line, a stylesheet block, or a report. A mistake in the colours or settings ends with exit code 2
and a line on the error stream; every other fault is the outcome of the whole run. `Host` is what
the command finds in place; `run` is the command with what the program brings along, whose numbers
are the values themselves.
-/

namespace Dichromat.CommandLine

/-- What a command runs on; `ι` are the images that it draws, `α` the numbers that it counts with.
-/
structure Host (ι α : Type) where
  /-- The library of images for previews. -/
  imaging : Imaging ι
  /-- The levels in which the values of a settings file may be nested. -/
  levels : Nat
  /-- The numbers as which values are read. -/
  read : Value → α

/-! ### Colours -/

/-- The text before and behind the last equals sign. -/
def splitName (word : String) : Option (String × String) :=
  let behind := (word.toList.reverse.takeWhile (· ≠ '=')).reverse
  if behind.length = word.length then none
  else
    some (String.ofList (word.toList.take (word.length - behind.length - 1)),
      String.ofList behind)

/-- A code with a number sign in front. -/
def withSign (code : String) : String := if code.startsWith "#" then code else "#" ++ code

/-- The name and the code of a word at a place; a colour without a name is named for its place. -/
def parseColor (word : String) (place : Nat) : Except Fault (String × String) := do
  let (name, code) := (splitName word).getD (s!"color{place}", word)
  let _ ← Hex.decode code
  return (name, withSign code)

/-- The names and codes of words. -/
def parseColors (words : List String) : Except Fault (List (String × String)) :=
  words.zipIdx.mapM fun (word, place) => parseColor word place

/-! ### Output -/

/-- What is printed. -/
inductive Output (α : Type)
  | nothing
  | text (s : String)
  | report (r : Summary α)

/-- The text of what is printed. -/
def Output.render : Output Value → String
  | nothing => ""
  | text s => s
  | report r => Report.render r

/-- How a command ends. -/
structure Finished (ι α : Type) where
  /-- The exit code. -/
  code : Nat
  output : Output α
  /-- What is written on the error stream. -/
  error : String
  /-- Where a preview was saved, and the preview. -/
  preview : Option (List String × ι)

variable {ι α : Type}

/-- The end of a command whose input is refused. -/
def refused (e : Fault) : Finished ι α :=
  { code := 2, output := .nothing, error := "Error: " ++ e.message ++ "\n", preview := none }

/-- Refused input ends the command; other faults go on. -/
def orRefused {β : Type} (outcome : Except Fault β) (next : β → Except Fault (Finished ι α)) :
    Except Fault (Finished ι α) :=
  match outcome with
  | .ok x => next x
  | .error e => if e.isRefusal then .ok (refused e) else .error e

/-- The lines of colours, a stylesheet block, or a report. -/
def output (a : Arguments) (d : Deficiency) (named : List (String × String))
    (result : Result α) : Except Fault (Output α) :=
  if a.json then
    .ok (.report
      { mode := d.name, colors := Report.colorTable named
        initialError := result.initialError, bestError := result.bestError
        iterations := result.iterations, bestIteration := result.bestIteration })
  else if a.css then
    (Theme.renderCss (named.map fun entry => ⟨.text entry.1, .text entry.2⟩) ":root").map .text
  else .ok (.text (String.join (named.map fun entry => entry.2 ++ "\n")))

/-- The path that an option gives, unless it is empty. -/
def pathOf : Value → Option String
  | .text path => if path = "" then none else some path
  | _ => none

/-- The value of an option, if it is given. -/
def orElse (given fallback : Value) : Value :=
  match given with
  | .null => fallback
  | v => v

/-- The settings of the file, whose values may be nested in some levels, with the seed and the depth
of the command line. -/
def settingsOf (levels : Nat) (t : FileTree) (a : Arguments) : Except Fault (Settings Value) := do
  let loaded ← Settings.load levels t (pathOf a.config)
  let settings := loaded.settings
  return { settings with
    seed := orElse a.seed settings.seed
    depthPerColor := orElse a.depth settings.depthPerColor }

/-- The colours that codes stand for, as a palette of values. -/
def colorValues (colors : List (Triple Nat)) : List Value :=
  colors.map fun rgb => .list (rgb.toList.map fun (n : Nat) => .int n)

/-- The preview of a result, if one is asked for. -/
def previewOf (lib : Imaging ι) (t : FileTree) (a : Arguments) (d : Deficiency)
    (colors : List (Triple Nat)) (result : Result α) :
    Except Fault (Option (List String × ι)) :=
  match pathOf a.preview with
  | none => .ok none
  | some path => do
    let optimized := result.palette.map fun rgb => Value.list (rgb.toList.map .int)
    let image ← Preview.renderValues lib (colorValues colors) optimized d (.int 48)
    return some (← lib.save image t path, image)

/-- Runs the command on its arguments. -/
def runOn [ColorArith α] (host : Host ι α) (t : FileTree) (a : Arguments) :
    Except Fault (Finished ι α) :=
  let parsed := do
    let d ← Deficiency.ofValue a.mode
    return (d, ← parseColors a.colors)
  orRefused parsed fun (d, definitions) => do
    let settings ← settingsOf host.levels t a
    let colors ← definitions.mapM fun entry => Hex.decode entry.2
    let outcome := optimizeBy host.read (.list (colorValues colors)) (.text d.name) settings none
    orRefused outcome fun result => do
      let named := definitions.zipWith (fun entry rgb => (entry.1, Hex.encode rgb)) result.palette
      let preview ← previewOf host.imaging t a d colors result
      let output ← output a d named result
      return { code := 0, output, error := "", preview }

/-- What the program brings along; it takes one of the levels of a settings file. -/
def Host.program : Host Image Value where
  imaging := Image.imaging
  levels := Settings.nestingLimit - 1
  read := id

/-- The command of the program. -/
def run (t : FileTree) (a : Arguments) : Except Fault (Finished Image Value) :=
  runOn Host.program t a

end Dichromat.CommandLine
