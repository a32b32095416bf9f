/-
Cluster paths such as `main.loop.inner`: segments joined by a separator.

* `lastSegment` — what follows the last separator;
* `depth` — how many separators a path holds, counted from the left without overlap;
* `isBelow` — the strict nesting of one path in another, by whole segments or by plain
  text.

An empty separator parts nothing: every path is then a single segment.
-/
namespace GraphFolding

/-- How a path is recognised as nested in another one. -/
inductive Nesting where
  /-- `a.b` is below `a`, `ab` is not. -/
  | bySegment
  /-- Every longer path that begins with `a` is below `a`. -/
  | byText
  deriving DecidableEq, Repr

namespace ClusterPath

/-- What follows the last occurrence of `separator`, if it occurs. -/
def afterLast (separator : List Char) : List Char → Option (List Char)
  | [] => none
  | c :: rest =>
    match afterLast separator rest with
    | some tail => some tail
    | none =>
      if separator.isPrefixOf (c :: rest) then some ((c :: rest).drop separator.length)
      else none

/-- The number of occurrences of the separator `s :: more`, from the left and without
overlap. -/
def occurrences (s : Char) (more : List Char) : List Char → Nat
  | [] => 0
  | c :: rest =>
    if (s :: more).isPrefixOf (c :: rest) then
      occurrences s more (rest.drop more.length) + 1
    else occurrences s more rest
termination_by path => path.length
decreasing_by all_goals simp only [List.length_cons, List.length_drop]; omega

/-- The last segment of a path (`a.b.c` has `c`). -/
def lastSegment (path separator : String) : String :=
  if separator.isEmpty then path
  else match afterLast separator.toList path.toList with
    | some tail => String.ofList tail
    | none => path

/-- How deeply a path is nested; a path of one segment has depth 0. -/
def depth (path separator : String) : Nat :=
  match separator.toList with
  | [] => 0
  | s :: more => occurrences s more path.toList

/-- What is left of `path` after `start`, if it begins with it. -/
def rest? (start path : List Char) : Option (List Char) :=
  if start.isPrefixOf path then some (path.drop start.length) else none

/-- Whether `candidate` is nested strictly inside `ancestor`. -/
def isBelow (nesting : Nesting) (separator candidate ancestor : String) : Bool :=
  if candidate = ancestor then false
  else match rest? ancestor.toList candidate.toList with
    | none => false
    | some rest =>
      match nesting with
      | .byText => true
      | .bySegment => !separator.isEmpty && separator.toList.isPrefixOf rest

end ClusterPath
end GraphFolding
