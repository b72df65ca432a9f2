import Bookkeeping.Command.Path
import Bookkeeping.Engine.Replay
import Bookkeeping.Journal.Device
/-!
A directory with files, as far as the commands of the program use it, and what paths lead to from
there. Of the system around it the usual directories in the root are known, and the null device.
-/
namespace Bookkeeping.Command

structure Directory where
  files : List (String × List UInt8) := []
  deriving DecidableEq, Repr

/-- What a path leads to. -/
inductive Place where
  | file (name : String)
  | nullDevice
  | directory
  /-- Something that is no directory, but is named as one by a slash at the end. -/
  | falseDirectory
  /-- Further on than something that is no directory. -/
  | insideFile
  | nameTooLong
  | missing
  deriving DecidableEq, Repr

/-- A directory on the way along a path: the one with the files, one around it, the root, or one
of the system in the root. -/
inductive Position where
  | inside
  | around
  | root
  | system (name : String)
  deriving DecidableEq, Repr

def systemDirectories : List String :=
  ["bin", "boot", "dev", "etc", "home", "lib", "lib64", "media", "mnt", "opt", "proc", "root",
    "run", "sbin", "srv", "sys", "tmp", "usr", "var"]

namespace Position

def outward : Position → Position
  | inside | around => around
  | root | system _ => root

def enter? (p : Position) (name : String) : Option Position :=
  if p = root ∧ name ∈ systemDirectories then some (system name) else none

end Position

namespace Directory

def file? (d : Directory) (name : String) : Option (List UInt8) := d.files.lookup name

def put (d : Directory) (name : String) (bytes : List UInt8) : Directory :=
  if (d.file? name).isSome then
    ⟨d.files.map fun f => if f.1 == name then (name, bytes) else f⟩
  else ⟨d.files ++ [(name, bytes)]⟩

/-- What has a name in a directory and is no directory itself; a file that is not there yet can be
made. -/
def place (d : Directory) (p : Position) (name : String) (isLast : Bool) : Place :=
  if maxNameLength < Text.byteLength name.toList then .nameTooLong
  else if p = .inside then
    if isLast then .file name else if (d.file? name).isSome then .insideFile else .missing
  else if p = .system "dev" ∧ name = "null" then if isLast then .nullDevice else .insideFile
  else .missing

def walk (d : Directory) (slash : Bool) : Position → List String → Place
  | _, [] => .directory
  | p, part :: rest =>
    if part = "." then d.walk slash p rest
    else if part = ".." then d.walk slash p.outward rest
    else
      match p.enter? part with
      | some p => d.walk slash p rest
      | none => if slash && rest.isEmpty then .falseDirectory else d.place p part rest.isEmpty

def locate (d : Directory) (path : String) : Place :=
  if path.isEmpty then .missing
  else if maxPathLength < Text.byteLength path.toList then .nameTooLong
  else
    d.walk (endsInSlash path) (if fromRoot path then .root else .inside) (pathParts path)

def target (d : Directory) (path : String) : Journal.Target :=
  match d.locate path with
  | .file _ => .regularFile
  | .nullDevice => .nullDevice
  | .directory | .falseDirectory => .directory
  | .insideFile => .notDirectory
  | .nameTooLong => .nameTooLong
  | .missing => .missing

def bytesAt (d : Directory) (path : String) : List UInt8 :=
  match d.locate path with
  | .file name => (d.file? name).getD []
  | _ => []

def putAt (d : Directory) (path : String) (bytes : List UInt8) : Directory :=
  match d.locate path with
  | .file name => d.put name bytes
  | _ => d

def input (d : Directory) (path : String) : ReplayInput :=
  match d.locate path with
  | .file name =>
    match d.file? name with
    | some bytes => .bytes bytes
    | none => .missing path
  | .nullDevice => .bytes []
  | .directory => .unreadable "Is a directory (os error 21)"
  | .falseDirectory | .insideFile | .nameTooLong | .missing => .missing path

end Directory

end Bookkeeping.Command
