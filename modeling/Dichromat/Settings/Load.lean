import Dichromat.FileTree
import Dichromat.Settings
import Dichromat.Toml.Document

/-!
# Settings from a file

The settings of a TOML file stand in its table `optimizer`. Where there is no file, and where it
cannot be read as such a table, the standard settings are used; the latter gives a warning. Only
a file that is not UTF-8, or has a number or a nesting that is too much to read, is refused.
-/

namespace Dichromat.Settings

/-- Settings that were loaded, and how many warnings that gave. -/
structure Loaded where
  settings : Settings Value
  warnings : Nat

/-- The standard settings. -/
private def fallback (warnings : Nat) : Loaded := { settings := standard, warnings }

/-- The settings that a document gives. -/
def ofDocument (entries : List (String × Value)) : Loaded :=
  match Value.field? "optimizer" entries with
  | none => { settings := ofTable [], warnings := 0 }
  | some (.table section_) => { settings := ofTable section_, warnings := 0 }
  | some _ => fallback 1

/-- The settings that the content of a file gives; it must be UTF-8 text, with values nested in so
many levels at most. -/
def ofBytes (levels : Nat) (bytes : List UInt8) : Except Fault Loaded :=
  match String.fromUTF8? (ByteArray.mk bytes.toArray) with
  | none => .error .notUtf8
  | some text =>
    match Toml.document levels text with
    | .ok entries => .ok (ofDocument entries)
    | .error .malformed => .ok (fallback 1)
    | .error e => .error e

/-- The levels that the program has for the nested values of a settings file. -/
def nestingLimit : Nat := 990

/-- The settings of the file at a path, if one is given, read with so many levels. What is there may
be refused when it is read: `read` tells the bytes that it gives, if any. -/
def loadWith (read : List String → FileNode → Option (List UInt8)) (levels : Nat) (t : FileTree)
    (path : Option String) : Except Fault Loaded :=
  match path with
  | none => .ok (fallback 0)
  | some path =>
    match t.lookup path with
    | .found place node =>
      match read place node with
      | some bytes => ofBytes levels bytes
      | none => .ok (fallback 1)
    | .absent _ | .refused _ => .ok (fallback 0)

/-- The settings of a path where files can be read and directories cannot. -/
def load (levels : Nat) (t : FileTree) (path : Option String) : Except Fault Loaded :=
  loadWith (fun _ node => node.bytes?) levels t path

end Dichromat.Settings
