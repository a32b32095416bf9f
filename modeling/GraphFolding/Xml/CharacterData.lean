/-
Character data: every line end becomes a line feed, references are resolved, and the
replacement text of an entity is read as content.

* `pushData` — one character more, with its line end normalised;
* `sectionText` — the text of a CDATA section;
* `Builder.characterData` — a run of text added to a document.
-/
import GraphFolding.Xml.AttributeValue
import GraphFolding.Xml.Builder
namespace GraphFolding.Xml

/-- Character data in reverse with one character more; a carriage return waits for what
follows it, unless nothing does. -/
def pushData (isLast : Bool) (c : Char) : List Char → List Char
  | '\r' :: before =>
    if isLast && c = '\r' then '\n' :: '\n' :: before
    else if c = '\n' then '\n' :: before
    else c :: '\n' :: before
  | before => if isLast && c = '\r' then '\n' :: before else c :: before

/-- As `sectionText`, after data in reverse. -/
def sectionTextInto : List Char → List Char → List Char
  | data, [] => data.reverse
  | data, c :: rest => sectionTextInto (pushData rest.isEmpty c data) rest

/-- The text of a CDATA section. -/
def sectionText (written : List Char) : String := String.ofList (sectionTextInto [] written)

namespace Builder

/-- Character data collected in reverse, added to the document unless it is empty. -/
def flush (b : Builder) (data : List Char) : Builder :=
  if data.isEmpty then b else b.appendText (String.ofList data.reverse)

/-- A run of character data, after data in reverse that is still to be added.  The character
after a character reference is taken as it is (`verbatim`).  `replace` reads the replacement
text of an entity. -/
def characterDataWith (inside : Bool)
    (replace : Builder → Position → Cursor → Except Error Builder) :
    Nat → List Char → Bool → Builder → Cursor → Except Error Builder
  | 0, data, _, b, _ => .ok (b.flush data)
  | fuel + 1, data, verbatim, b, k =>
    match k.rest with
    | [] => .ok (b.flush data)
    | '&' :: _ =>
      match k.reference? with
      | none => .error (.malformedReference k.position)
      | some (.char c, k') =>
        if inside then
          characterDataWith inside replace fuel (pushData k'.atEnd c data) verbatim b k'
        else characterDataWith inside replace fuel (c :: data) true b k'
      | some (.entity name, k') =>
        match b.entities.find? name with
        | none => .error (.unknownReference name k.position)
        | some text => do
          let b ← replace (b.flush data) k'.position text
          characterDataWith inside replace fuel [] false b k'
    | c :: rest =>
      let data := if verbatim then c :: data else pushData rest.isEmpty c data
      characterDataWith inside replace fuel data false b k.advance

/-- A run of character data added to the document. -/
def characterData (inside : Bool) (replace : Builder → Position → Cursor → Except Error Builder)
    (b : Builder) (k : Cursor) : Except Error Builder :=
  characterDataWith inside replace k.rest.length [] false b k

end Builder
end GraphFolding.Xml
