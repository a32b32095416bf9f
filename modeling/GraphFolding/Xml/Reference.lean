/-
References in text and attribute values: `&#…;`, the five built-in names, and entities.

* `Cursor.reference?` — the reference that begins at a cursor, if it is well formed;
* `Entities` — the entities a document declares, the first declaration of a name counting.
-/
import GraphFolding.Xml.Name
namespace GraphFolding.Xml

/-- What a reference stands for: a character, or the replacement text of an entity. -/
inductive Reference where
  | char (c : Char)
  | entity (name : String)
  deriving DecidableEq, Repr

/-- The entities of a document: names and the places of their replacement texts. -/
abbrev Entities := List (String × Cursor)

/-- The replacement text of an entity. -/
def Entities.find? (entities : Entities) (name : String) : Option Cursor :=
  entities.lookup name

/-- The value of a digit of base 16. -/
def hexValue? (c : Char) : Option Nat :=
  if '0' ≤ c && c ≤ '9' then some (c.toNat - '0'.toNat)
  else if 'a' ≤ c && c ≤ 'f' then some (c.toNat - 'a'.toNat + 10)
  else if 'A' ≤ c && c ≤ 'F' then some (c.toNat - 'A'.toNat + 10)
  else none

/-- The value of a numeral in a base up to 16. -/
def numeralValue (base : Nat) (figures : List Char) : Nat :=
  figures.foldl (fun n c => base * n + (hexValue? c).getD 0) 0

/-- The character of a code point; one that no character has stands for the replacement
character, one that a document may not hold for none. -/
def referencedChar? (codePoint : Nat) : Option Char :=
  if Nat.pow 2 32 ≤ codePoint then none
  else
    let c := if codePoint.isValidChar then Char.ofNat codePoint else '\ufffd'
    if isAllowed c then some c else none

/-- The characters that have a name of their own. -/
def builtInNames : List (String × Char) :=
  [("quot", '\x22'), ("amp", '&'), ("apos", '\x27'), ("lt", '<'), ("gt", '>')]

namespace Cursor

/-- The numeral of a character reference, the cursor standing after its `#`. -/
def referenceNumeral? (k : Cursor) : Option (Char × Cursor) :=
  let (base, k) := if k.startsWith "x" then (16, k.advance) else (10, k)
  let (figures, k) := k.span fun c =>
    if base = 16 then (hexValue? c).isSome else '0' ≤ c && c ≤ '9'
  if figures.isEmpty then none
  else (referencedChar? (numeralValue base figures)).map (·, k)

/-- What stands between `&` and `;`. -/
def referenceBody? (k : Cursor) : Option (Reference × Cursor) :=
  if k.startsWith "#" then k.advance.referenceNumeral?.map fun (c, k) => (.char c, k)
  else match k.name with
    | .error _ => none
    | .ok (name, k) =>
      match builtInNames.lookup name with
      | some c => some (.char c, k)
      | none => some (.entity name, k)

/-- The reference at a cursor that stands at an ampersand, and the cursor after it. -/
def reference? (k : Cursor) : Option (Reference × Cursor) :=
  match k.advance.referenceBody? with
  | none => none
  | some (reference, k) => if k.startsWith ";" then some (reference, k.advance) else none

end Cursor
end GraphFolding.Xml
