import Dichromat.FileTree
import Dichromat.Theme.Definition

/-!
# Writing a stylesheet

A stylesheet is written to a temporary file beside its target, which then takes the target's
place: `Theme.writeWith` does so under any replies of the file system, `Theme.writeCss` under
those that a file tree gives.
-/

namespace Dichromat.Theme

/-- How the file system replies to the calls of one write; no fault is success. -/
structure Replies where
  /-- Making the directories of the target. -/
  directories : Option Fault
  /-- The files after the directories were made. -/
  made : FileTree
  /-- Making the temporary file: its place. -/
  create : Except Fault (List String)
  /-- Writing a content: how many of its bytes were written. -/
  write : List UInt8 → Except Fault Nat
  close : Option Fault
  /-- Putting the temporary file in the place of the target. -/
  rename : Option Fault

/-- The path that a lookup ends at. -/
def placeOf : FileTree.Lookup → List String
  | .found place _ => place
  | .absent place => place
  | .refused _ => []

/-- Tells a fault of the file system as a failed write; any other fault goes on to the caller. -/
def failed (e : Fault) : Except Fault Bool := if e.isSystem then .ok false else .error e

/-- What is written to the temporary file, and the fault of writing or closing it. -/
def written (replies : Replies) (content : List UInt8) : List UInt8 × Option Fault :=
  match replies.write content with
  | .ok n => (content.take n, replies.close)
  | .error e => ([], some (replies.close.getD e))

/-- The outcome of a write, and the files afterwards. A temporary file is removed when a call of
the file system fails. -/
def replaceFile (replies : Replies) (path : String) (content : List UInt8) :
    Except Fault Bool × FileTree :=
  let t := replies.made
  match replies.directories with
  | some .accessDenied => (.ok false, t)
  | some e => (.error e, t)
  | none =>
    match replies.create with
    | .error e => (failed e, t)
    | .ok temporary =>
      let target := placeOf (t.lookup path)
      let (bytes, fault) := written replies content
      let t := t.put temporary (.file bytes)
      match fault.or replies.rename with
      | some e => (failed e, if e.isSystem then t.remove temporary else t)
      | none => (.ok true, t.rename temporary target)

/-- Writes the colours to a file under some replies of the file system. -/
def writeWith (replies : Replies) (t : FileTree) (path : String) (definitions : List Definition)
    (selector : String) : Except Fault Bool × FileTree :=
  match renderCss definitions selector with
  | .error e => (.error e, t)
  | .ok text => replaceFile replies path text.toUTF8.toList

/-! ### Replies of a file tree -/

/-- The reply to putting a file in the place of a path. -/
def renameReply (t : FileTree) (path : String) : Option Fault :=
  match t.lookup path with
  | .found _ .directory => some .isADirectory
  | .found _ (.file _) => none
  | .absent _ => none
  | .refused e => some e

/-- The reply to making a file with a short name of `length` bytes in a directory: its place. -/
def createReply (t : FileTree) (directory : List String) (length : Nat) :
    Except Fault (List String) :=
  if FileTree.pathLimit < t.sizeFromRoot directory + 1 + length then .error .fileRefused
  else .ok (directory ++ [t.freshName])

/-- The replies of a tree to the write of a path: without directories in the path, the temporary
file lies outside the working directory. -/
def repliesOf (t : FileTree) (path : String) : Replies :=
  let directory := (FileTree.split path).1
  let reply := t.makeDirectories directory
  { directories := match reply.1 with
      | .ok _ => none
      | .error e => some e
    made := reply.2
    create := do
      let place ← reply.1
      createReply reply.2 (if directory = "" then [".."] else place) 11
    write := fun content => .ok content.length
    close := none
    rename := renameReply reply.2 path }

/-- Writes the colours to a file, making its directories. -/
def writeCss (t : FileTree) (path : String) (definitions : List Definition) (selector : String) :
    Except Fault Bool × FileTree :=
  writeWith (repliesOf t path) t path definitions selector

end Dichromat.Theme
