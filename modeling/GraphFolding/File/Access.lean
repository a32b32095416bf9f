/-
Files reached by paths, from the directory of a run.

* `Place`, `Entry` — the directories that a path can lead through, and what has a name there;
* `Directory.find`, `Directory.walk` — a name looked up, and a way followed;
* `Directory.read`, `Directory.write` — one file read or written by its path.

Around the directory of a run there are others, of which only the standard ones in the root
and the special files in one of them are known.
-/
import GraphFolding.File.Directory
import GraphFolding.File.Error
import GraphFolding.File.Path
namespace GraphFolding

/-- A special file: one that keeps nothing, one that has no room, or a stream of the run. -/
inductive Device where
  | null
  | full
  | standardInput
  | standardOutput
  | standardError
  deriving DecidableEq, Repr

/-- A directory: that of the run, one that holds it, the root, or one in the root. -/
inductive Place where
  | here
  | above
  | root
  | standard (name : String)
  deriving DecidableEq, Repr

/-- What has a name in a directory. -/
inductive Entry where
  | directory (place : Place)
  | file (content : Content)
  | device (device : Device)
  | vacant
  deriving DecidableEq

namespace Place

/-- The directory that holds another one; the root holds itself. -/
def parent : Place → Place
  | here => above
  | above => above
  | root => root
  | standard _ => root

/-- The directories that a root has. -/
def standardNames : List String :=
  ["bin", "boot", "dev", "etc", "home", "lib", "media", "mnt", "opt", "proc", "root", "run",
    "sbin", "srv", "sys", "tmp", "usr", "var"]

/-- The special files by their names, which stand in the directory `dev` of the root. -/
def devices : List (String × Device) :=
  [("null", .null), ("full", .full), ("stdin", .standardInput), ("stdout", .standardOutput),
    ("stderr", .standardError)]

end Place

namespace Device

/-- What reading a special file gives; the one without room holds more than can be read. -/
def read (standardInput : ByteArray) : Device → Except FileError ByteArray
  | .standardInput => .ok standardInput
  | .full => .error .outOfMemory
  | _ => .ok .empty

end Device

/-- What a written file leaves: the directory of the run, and what was printed. -/
structure Written (D : Type) where
  directory : D
  printed : ByteArray := .empty

namespace Directory

/-- What has a name in a directory, `d` being that of the run. -/
def entry (d : Directory) (place : Place) (name : String) : Entry :=
  match place with
  | .here => ((d.get? name).map Entry.file).getD .vacant
  | .above => .vacant
  | .root => if name ∈ Place.standardNames then .directory (.standard name) else .vacant
  | .standard parent =>
    if parent = "dev" then ((Place.devices.lookup name).map Entry.device).getD .vacant
    else .vacant

/-- The length in bytes that names may have. -/
def nameLimit : Nat := 255

/-- The length in bytes that paths may not reach. -/
def pathLimit : Nat := 4096

/-- A name looked up. -/
def find (d : Directory) (place : Place) (name : String) : Except FileError Entry :=
  if nameLimit < name.utf8ByteSize then .error .nameTooLong else .ok (d.entry place name)

/-- A way followed from a directory; everything on it has to be a directory. -/
def walk (d : Directory) (place : Place) : List Step → Except FileError Place
  | [] => .ok place
  | .stay :: rest => walk d place rest
  | .up :: rest => walk d place.parent rest
  | .down name :: rest => do
    match ← d.find place (String.ofList name) with
    | .directory place => walk d place rest
    | .vacant => throw .notFound
    | _ => throw .notDirectory

/-- The directory that a path leads to, and the name in it that the path ends with. -/
def locate (d : Directory) (path : String) : Except FileError (Place × Option String) := do
  if path.isEmpty then throw .notFound
  if pathLimit ≤ path.utf8ByteSize then throw .nameTooLong
  let p := Path.ofString path
  let (way, name) := p.target
  return (← d.walk (if p.isAbsolute then .root else .here) way, name.map String.ofList)

/-- The bytes of the file at a path. -/
def read (d : Directory) (standardInput : ByteArray) (path : String) :
    Except FileError ByteArray := do
  match ← d.locate path with
  | (_, none) => throw .isDirectory
  | (place, some name) =>
    let found ← d.find place name
    match found, (Path.ofString path).endsInSlash with
    | .directory _, _ => throw .isDirectory
    | .vacant, _ => throw .notFound
    | _, true => throw .notDirectory
    | .file content, false => return content.toBytes
    | .device device, false => device.read standardInput

/-- A content written to a path.  A new name outside the directory of the run leaves no
trace. -/
def write (d : Directory) (path : String) (content : Content) :
    Except FileError (Written Directory) := do
  match ← d.locate path with
  | (_, none) => throw .isDirectory
  | (place, some name) =>
    if (Path.ofString path).endsInSlash then throw .isDirectory
    match ← d.find place name with
    | .directory _ => throw .isDirectory
    | .device .full => throw .noSpace
    | .device .standardOutput => return { directory := d, printed := content.toBytes }
    | .device _ => return { directory := d }
    | _ => return { directory := if place = .here then d.insert name content else d }

end Directory
end GraphFolding
