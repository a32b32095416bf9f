/-
Fold rules decoded from values that were read beforehand.

* `FoldKey.decode` — the change that the value of a key makes to the rules;
* `FoldRules.ofMembers` — the rules of an object, whose other members do not count.
-/
import GraphFolding.Settings.Key
namespace GraphFolding

open Data

namespace Data.Value

/-- A value that has to be a string. -/
def asText : Value → Except Mismatch String
  | .text s => .ok s
  | v => .error (.wrongType v.found .text)

/-- A value that has to be a natural number. -/
def asCount : Value → Except Mismatch Nat
  | .number (.natural n) => .ok n
  | .number (.negative n) => .error (.wrongValue (.number (.negative n)) .count)
  | v => .error (.wrongType v.found .count)

/-- A value that has to be a list of strings. -/
def asTexts : Value → Except Mismatch (List String)
  | .list items => items.mapM asText
  | v => .error (.wrongType v.found .list)

/-- A value that has to stand for nothing: null or an object without members. -/
def asUnit : Value → Except Mismatch Unit
  | .null => .ok ()
  | .object [] => .ok ()
  | v => .error (.wrongType v.found .unit)

/-- A value that has to be one of the words for the nesting of clusters, alone or as the
only key of an object. -/
def asNesting : Value → Except Mismatch Nesting
  | .text word => Nesting.ofWord word
  | .object [(word, v)] => do
    let nesting ← Nesting.ofWord word
    v.asUnit
    return nesting
  | .object _ => .error (.wrongValue .object .singleMember)
  | v => .error (.wrongType v.found .textOrObject)

end Data.Value

/-- The change that the value of a key makes to the rules. -/
def FoldKey.decode (key : FoldKey) (v : Value) : Except Mismatch (FoldRules → FoldRules) :=
  match key with
  | hiddenClass => do let s ← v.asText; return ({ · with hiddenClass := s })
  | collapsedClass => do let s ← v.asText; return ({ · with collapsedClass := s })
  | clusterAttribute => do let s ← v.asText; return ({ · with clusterAttribute := s })
  | targetAttribute => do let s ← v.asText; return ({ · with targetAttribute := s })
  | hrefAttributes => do let s ← v.asTexts; return ({ · with hrefAttributes := s })
  | frameClass => do let s ← v.asText; return ({ · with frameClass := s })
  | frameTitlePrefix => do let s ← v.asText; return ({ · with frameTitlePrefix := s })
  | placeholderPrefix => do let s ← v.asText; return ({ · with placeholderPrefix := s })
  | separator => do let s ← v.asText; return ({ · with separator := s })
  | containerDepth => do let n ← v.asCount; return ({ · with containerDepth := n })
  | descendantMatch => do let n ← v.asNesting; return ({ · with nesting := n })

/-- Rules changed by the members of an object, after the keys seen before. -/
def FoldRules.applyMembers (seen : List FoldKey) (r : FoldRules) :
    List (String × Value) → Except Mismatch FoldRules
  | [] => .ok r
  | (name, v) :: rest =>
    match FoldRules.group.key? name with
    | none => applyMembers seen r rest
    | some key =>
      if seen.contains key then .error (.duplicateField name)
      else do
        let change ← key.decode v
        applyMembers (key :: seen) (change r) rest

/-- The rules that the members of an object state. -/
def FoldRules.ofMembers (members : List (String × Value)) : Except Mismatch FoldRules :=
  FoldRules.applyMembers [] FoldRules.group.defaults members

end GraphFolding
