/-
Names of markup: plain names, and qualified names of a prefix and a local part.

* `QName` — a name as it is written;
* `Cursor.name`, `Cursor.qualifiedName` — reading them.
-/
import GraphFolding.Xml.Cursor
namespace GraphFolding.Xml

/-- A qualified name as it is written; a name without a prefix has an empty one. -/
structure QName where
  qualifier : String
  localPart : String
  deriving DecidableEq, Repr

namespace QName

/-- `prefix:local`, or the local part alone. -/
def text (q : QName) : String :=
  if q.qualifier.isEmpty then q.localPart else q.qualifier ++ ":" ++ q.localPart

/-- The prefix, unless it is empty. -/
def qualifier? (q : QName) : Option String :=
  if q.qualifier.isEmpty then none else some q.qualifier

end QName

namespace Cursor

/-- Past a name, if there is more text; a text that goes on otherwise than a name begins
is a fault. -/
def skipName (k : Cursor) : Except Error Cursor :=
  match k.rest with
  | [] => .ok k
  | c :: _ => if isNameStart c then .ok (k.advance.span isNameChar).2 else .error (.invalidName k.position)

/-- A name and the cursor after it. -/
def name (k : Cursor) : Except Error (String × Cursor) :=
  match k.rest with
  | [] => .error (.invalidName k.position)
  | c :: _ =>
    if isNameStart c then
      let (more, k') := k.advance.span isNameChar
      .ok (String.ofList (c :: more), k')
    else .error (.invalidName k.position)

/-- Whether a part of a qualified name begins as a name does; an empty part does not. -/
def beginsName : List Char → Bool
  | [] => false
  | c :: _ => isNameStart c

/-- A qualified name and the cursor after it. -/
def qualifiedName (k : Cursor) : Except Error (QName × Cursor) :=
  let (first, k₁) := k.span isNamePartChar
  match k₁.rest with
  | ':' :: _ =>
    let (second, k₂) := k₁.advance.span isNamePartChar
    if k₂.startsWith ":" || !(first.isEmpty || beginsName first) || !beginsName second then
      .error (.invalidName k.position)
    else .ok (⟨String.ofList first, String.ofList second⟩, k₂)
  | _ =>
    if beginsName first then .ok (⟨"", String.ofList first⟩, k₁)
    else .error (.invalidName k.position)

end Cursor
end GraphFolding.Xml
