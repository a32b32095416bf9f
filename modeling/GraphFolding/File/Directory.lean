/-
Directories of files without further directories in them.

* `Content` — what a file holds;
* `Directory.insert` — a file with a content, new or in the place of another one;
* `Directory.changes` — the files of a directory that another one has not, or has otherwise.
-/
import GraphFolding.Picture.File
namespace GraphFolding

/-- What a file holds. -/
inductive Content where
  | bytes (b : ByteArray)
  | picture (p : Picture)

instance : DecidableEq Content
  | .bytes a, .bytes b => decidable_of_iff (a.data = b.data)
      ⟨fun h => congrArg Content.bytes (ByteArray.ext h), fun h => by cases h; rfl⟩
  | .picture p, .picture q => decidable_of_iff (p = q)
      ⟨congrArg Content.picture, fun h => by cases h; rfl⟩
  | .bytes _, .picture _ => .isFalse (by simp)
  | .picture _, .bytes _ => .isFalse (by simp)

/-- The bytes of a file. -/
def Content.toBytes : Content → ByteArray
  | bytes b => b
  | picture p => p.bytes

/-- The content of a text file. -/
def Content.ofText (text : String) : Content := .bytes text.toUTF8

/-- The files of a directory by their names, each name once. -/
structure Directory where
  files : List (String × Content) := []

namespace Directory

/-- What the file of a name holds. -/
def get? (d : Directory) (name : String) : Option Content := d.files.lookup name

/-- A file with a content, in the place of one that had its name. -/
def insert (d : Directory) (name : String) (content : Content) : Directory :=
  if (d.get? name).isSome then
    { files := d.files.map fun file => if file.1 = name then (name, content) else file }
  else { files := d.files ++ [(name, content)] }

/-- The files of a directory that another one has not, or has with another content. -/
def changes (before after : Directory) : List (String × Content) :=
  after.files.filter fun (name, content) => before.get? name ≠ some content

end Directory
end GraphFolding
