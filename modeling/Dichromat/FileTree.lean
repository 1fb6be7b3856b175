import Dichromat.Fault

/-!
# File trees

The files and directories that a program sees, by path: from its working directory, or from the
root of all directories. A path is looked up from component to component: `.` stays, `..` goes back
to the parent, and everything before the last component must be a directory.
-/

namespace Dichromat

/-- What can be at a path. -/
inductive FileNode
  | directory
  | file (bytes : List UInt8)
  deriving DecidableEq

/-- The content of a file. -/
def FileNode.bytes? : FileNode → Option (List UInt8)
  | directory => none
  | file bytes => some bytes

/-- Files and directories by their path: components from the working directory, or `/` and the
components from the root. -/
structure FileTree where
  nodes : List (List String × FileNode)
  /-- The bytes of the path from the root to the working directory. -/
  originSize : Nat

namespace FileTree

/-- The tree of an empty working directory. -/
def empty : FileTree := { nodes := [], originSize := 16 }

/-- The path of the root. -/
def root : List String := ["/"]

/-- What is at a path; the working directory, those above it and the root are always there. -/
def node? (t : FileTree) (path : List String) : Option FileNode :=
  if path.all (· = "..") || path = root then some .directory
  else (t.nodes.find? fun entry => entry.1 = path).map Prod.snd

/-- The tree without what is at a path. -/
def remove (t : FileTree) (path : List String) : FileTree :=
  { t with nodes := t.nodes.filter fun entry => entry.1 ≠ path }

/-- Puts a file or a directory in the place of what is at a path. -/
def put (t : FileTree) (path : List String) (node : FileNode) : FileTree :=
  { t with nodes := (path, node) :: (t.remove path).nodes }

/-- Moves a file onto a path, in place of what is there. -/
def rename (t : FileTree) (source target : List String) : FileTree :=
  match t.node? source with
  | none => t
  | some node => (t.remove source).put target node

/-! ### Paths -/

/-- What stands between the slashes of a path. -/
def parts (path : String) : List String := (path.toList.splitOn '/').map String.ofList

/-- The components of a path between slashes, each with the bytes of the path up to its end; empty
ones do not count. -/
def measuredComponents (path : String) : List (String × Nat) :=
  let (components, _) := (parts path).foldl
    (fun (components, start) part =>
      let stop := start + part.utf8ByteSize
      (if part = "" then components else components ++ [(part, stop)], stop + 1))
    (([] : List (String × Nat)), 0)
  components

/-- The components of a path. -/
def components (path : String) : List String := (measuredComponents path).map Prod.fst

/-- Where a path starts. -/
def origin (path : String) : List String := if path.startsWith "/" then root else []

/-- The directory that a path lies in. -/
def parent (path : List String) : List String :=
  if path.all (· = "..") then path ++ [".."]
  else if path = root then root
  else path.dropLast

/-- A path without the slashes at its end, unless it consists of slashes. -/
def withoutSlashes (path : String) : String :=
  let trimmed := (path.toList.reverse.dropWhile (· = '/')).reverse
  if trimmed.isEmpty then path else String.ofList trimmed

/-- The directory of a path, and the name behind its last slash. -/
def split (path : String) : String × String :=
  let name := (parts path).getLastD ""
  (withoutSlashes (String.ofList (path.toList.take (path.length - name.length))), name)

/-- The path that one component leads to. -/
def step (here : List String) (part : String) : List String :=
  if part = "." then here else if part = ".." then parent here else here ++ [part]

/-- The place that a path leads to. -/
def resolve (path : String) : List String := (components path).foldl step (origin path)

/-- The most bytes that a component may have. -/
def nameLimit : Nat := 255

/-- The most bytes that a path may have. -/
def pathLimit : Nat := 4095

/-- The bytes of the path from the root to a place. -/
def sizeFromRoot (t : FileTree) (place : List String) : Nat :=
  let size := fun (parts : List String) => parts.foldl (fun n part => n + part.utf8ByteSize + 1) 0
  match place with
  | "/" :: parts => size parts
  | parts => t.originSize + size parts

/-- Whether a text has the character that ends names of the system. -/
def hasNul (s : String) : Bool := s.toList.any (· = '\x00')

/-- What is found at a path. -/
inductive Lookup
  | found (path : List String) (node : FileNode)
  /-- Nothing is there, but its directory is. -/
  | absent (path : List String)
  | refused (fault : Fault)
  deriving DecidableEq

/-- Walks on from a directory. -/
def walk (t : FileTree) (here : List String) : List String → Lookup
  | [] => .found here .directory
  | part :: rest =>
    if nameLimit < part.utf8ByteSize then .refused .fileRefused
    else
      let next := step here part
      match t.node? next with
      | some .directory => walk t next rest
      | some (.file bytes) =>
        if rest.isEmpty then .found next (.file bytes) else .refused .notADirectory
      | none => if rest.isEmpty then .absent next else .refused .fileNotFound

/-- What a path leads to; one that ends in a slash asks for a directory. -/
def lookup (t : FileTree) (path : String) : Lookup :=
  if path = "" then .refused .fileNotFound
  else if hasNul path then .refused .nulInPath
  else if pathLimit < path.utf8ByteSize then .refused .fileRefused
  else
    match t.walk (origin path) (components path) with
    | .found place (.file bytes) =>
      if path.endsWith "/" then .refused .notADirectory else .found place (.file bytes)
    | .absent place => if path.endsWith "/" then .refused .fileNotFound else .absent place
    | outcome => outcome

/-! ### Directories -/

/-- The fault of making a directory of a name below a file. -/
def belowFile : List (String × Nat) → Fault
  | [] => .fileExists
  | (part, stop) :: _ =>
    if hasNul part then .nulInPath
    else if pathLimit < stop then .fileRefused
    else .notADirectory

/-- Makes directories one below the other where they are missing, each with the bytes of the path up
to its end. Once one was made (`made`), a `.` is passed over. Those made before a fault stay. -/
def makeBelow (t : FileTree) (here : List String) (made : Bool) :
    List (String × Nat) → Except Fault (List String) × FileTree
  | [] => (.ok here, t)
  | (part, stop) :: rest =>
    if made && part = "." then makeBelow t here made rest
    else if hasNul part then (.error .nulInPath, t)
    else if nameLimit < part.utf8ByteSize || pathLimit < stop then (.error .fileRefused, t)
    else
      let next := step here part
      match t.node? next with
      | some .directory => makeBelow t next made rest
      | some (.file _) => (.error (belowFile rest), t)
      | none => makeBelow (t.put next .directory) next true rest

/-- Makes the directories of a path where they are missing, with the place of the last one. -/
def makeDirectories (t : FileTree) (path : String) : Except Fault (List String) × FileTree :=
  t.makeBelow (origin path) false (measuredComponents path)

/-- A name that no path of the tree contains. -/
def freshName (t : FileTree) : String :=
  let longest := (t.nodes.flatMap Prod.fst).foldl (fun n part => max n part.length) 0
  String.ofList (List.replicate (longest + 1) 't')

end FileTree

end Dichromat
