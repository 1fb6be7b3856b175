import Dichromat.CommandLine.Run
import Dichromat.Png

/-!
# The program

`main` reads the settings file that the arguments name, runs the command, prints what it answers
and saves the preview.
-/

namespace Dichromat.Program

open CommandLine

/-- How the command is called. -/
def usage : String :=
  "usage: dichromat [-h] [-m MODE] [-c PATH] [-s SEED] [-d N] [-j] [--css] [-p PNG] [-v]\n" ++
    "                 COLOR [COLOR ...]\n"

/-- The files that a run with these arguments looks at. -/
def survey (a : Arguments) : IO FileTree := do
  let place := fun (t : FileTree) (path : String) =>
    (t.makeDirectories (FileTree.split path).1).2
  let mut t := FileTree.empty
  if let some path := pathOf a.preview then
    t := place t path
  if let some path := pathOf a.config then
    try
      let bytes ← IO.FS.readBinFile path
      t := (place t path).put (FileTree.resolve path) (.file bytes.toList)
    catch _ => pure ()
  return t

/-- Saves a preview where the arguments want it. -/
def savePreview (a : Arguments) (image : Image) : IO Unit := do
  if let some path := pathOf a.preview then
    IO.FS.writeBinFile path (ByteArray.mk (Png.encode image).toArray)

/-- Runs the command, with its exit code. -/
def runWith (a : Arguments) : IO UInt32 := do
  match run (← survey a) a with
  | .error e =>
    IO.eprintln e.message
    return 1
  | .ok finished =>
    IO.eprint finished.error
    if let some (_, image) := finished.preview then savePreview a image
    IO.print finished.output.render
    return finished.code.toUInt32

end Dichromat.Program

open Dichromat in
/-- Runs the program. -/
def main (args : List String) : IO UInt32 := do
  match CommandLine.Arguments.parse args with
  | .ok a => Program.runWith a
  | .error 0 =>
    IO.print Program.usage
    return 0
  | .error code =>
    IO.eprint Program.usage
    return code.toUInt32
