/-
Paths of files.

* `Path.ofString` — the way to a directory that a path describes, and the name in it;
* `Path.extension?` — what follows the last dot of a file name.
-/
namespace GraphFolding

/-- The pieces of a text between the slashes. -/
def pieces : List Char → List (List Char)
  | [] => [[]]
  | c :: rest =>
    match c, pieces rest with
    | '/', more => [] :: more
    | _, [] => [[c]]
    | _, piece :: more => (c :: piece) :: more

/-- A step from a directory: none, to the directory around it, or to what has a name in it. -/
inductive Step where
  | stay
  | up
  | down (name : List Char)
  deriving DecidableEq, Repr

/-- The step that a piece of a path stands for. -/
def Step.ofPiece (piece : List Char) : Step :=
  if piece = ['.'] then .stay else if piece = ['.', '.'] then .up else .down piece

/-- A path: whether it starts at the root, its steps, and whether a slash follows the last
one. -/
structure Path where
  isAbsolute : Bool
  steps : List Step
  endsInSlash : Bool
  deriving DecidableEq, Repr

namespace Path

/-- The path that a text stands for. -/
def ofString (text : String) : Path where
  isAbsolute := text.toList.head? = some '/'
  steps := ((pieces text.toList).filter (· ≠ [])).map Step.ofPiece
  endsInSlash := text.toList.getLast? = some '/'

/-- The steps to a directory, and the name in it that a path ends with; a path that ends
otherwise leads to a directory itself. -/
def target (p : Path) : List Step × Option (List Char) :=
  match p.steps.getLast? with
  | some (.down name) => (p.steps.dropLast, some name)
  | _ => (p.steps, none)

/-- What follows the last dot of a file name; a dot that is the first character begins the
name. -/
def extensionOf? (name : List Char) : Option (List Char) :=
  let reversed := name.reverse
  match reversed.dropWhile (· ≠ '.') with
  | _ :: _ :: _ => some (reversed.takeWhile (· ≠ '.')).reverse
  | _ => none

/-- What follows the last dot of the file name at the end of a path, wherever the path stays
after it. -/
def extension? (text : String) : Option (List Char) :=
  match ((ofString text).steps.filter (· ≠ .stay)).getLast? with
  | some (.down name) => extensionOf? name
  | _ => none

end Path
end GraphFolding
