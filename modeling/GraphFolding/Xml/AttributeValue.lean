/-
The value of an attribute: blanks become spaces, references are resolved, and entities
are replaced by their own normalised text.

* `Expansion` — the limits on nested references that keep replacement finite;
* `attributeValue` — the value of a written attribute at a level of nesting.
-/
import GraphFolding.Xml.Reference
namespace GraphFolding.Xml

namespace Expansion

/-- How deeply entity references may be nested. -/
def maxLevels : Nat := 10

/-- How many references may be followed below an outermost one. -/
def maxReferences : Nat := 255

/-- Whether a reference with `levels` levels left below it stands in replacement text. -/
def isInside (levels : Nat) : Bool := levels < maxLevels

/-- The references followed after one more, which stands before `place`. -/
def count (levels references : Nat) (place : Position) : Except Error Nat :=
  if isInside levels then
    if references = maxReferences then .error (.referenceLoop place) else .ok (references + 1)
  else .ok references

/-- The references followed once replacement text at a level has been read. -/
def leave (levels references : Nat) : Nat :=
  if isInside levels then references else 0

end Expansion

/-- A blank other than the space becomes a space. -/
def spaced (c : Char) : Char := if isBlank c then ' ' else c

/-- A written attribute value: the value before it in reverse, and the count of references
followed.  `replace` appends the replacement text of an entity. -/
def attributeValueWith (entities : Entities) (inside : Bool)
    (replace : List Char → Nat → Position → Cursor → Except Error (List Char × Nat)) :
    Nat → List Char → Nat → Cursor → Except Error (List Char × Nat)
  | 0, value, references, _ => .ok (value, references)
  | fuel + 1, value, references, k =>
    match k.rest with
    | [] => .ok (value, references)
    | '&' :: _ =>
      match k.reference? with
      | none => .error (.malformedReference k.position)
      | some (.char c, k') =>
        if inside && c = '<' then .error (.lessThanInEntity k.position)
        else
          attributeValueWith entities inside replace fuel
            ((if inside then spaced c else c) :: value) references k'
      | some (.entity name, k') =>
        match entities.find? name with
        | none => .error (.unknownReference name k.position)
        | some text => do
          let (value, references) ← replace value references k'.position text
          attributeValueWith entities inside replace fuel value references k'
    | '\r' :: '\n' :: _ => attributeValueWith entities inside replace fuel value references k.advance
    | c :: _ =>
      attributeValueWith entities inside replace fuel (spaced c :: value) references k.advance

/-- The replacement text of an entity, appended to a value in reverse, where references may
be nested in `levels` more levels. -/
def attributeReplacement (entities : Entities) :
    Nat → List Char → Nat → Position → Cursor → Except Error (List Char × Nat)
  | 0, _, _, place, _ => .error (.referenceLoop place)
  | levels + 1, value, references, place, text => do
    let references ← Expansion.count (levels + 1) references place
    let (value, references) ← attributeValueWith entities true
      (attributeReplacement entities levels) text.rest.length value references text
    return (value, Expansion.leave (levels + 1) references)

/-- The value of an attribute as it is written, and the count of references followed. -/
def attributeValue (entities : Entities) (levels references : Nat) (k : Cursor) :
    Except Error (String × Nat) := do
  let (value, references) ← attributeValueWith entities (Expansion.isInside levels)
    (attributeReplacement entities levels) k.rest.length [] references k
  return (String.ofList value.reverse, references)

end GraphFolding.Xml
