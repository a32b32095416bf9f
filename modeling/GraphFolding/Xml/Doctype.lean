/-
The document type: entity declarations, comments and instructions count, other
declarations are passed over.

* `Builder.doctype` — a document type declaration.
-/
import GraphFolding.Xml.Content
namespace GraphFolding.Xml

namespace Cursor

/-- Past a quoted text, whose characters are not looked at. -/
def skipQuoted (k : Cursor) : Except Error Cursor := do
  let (quote, k) ← k.expectQuote
  (k.span (· ≠ quote)).2.expectChar quote

/-- Whether an external identifier comes next. -/
def startsExternalId (k : Cursor) : Bool := k.startsWith "SYSTEM" || k.startsWith "PUBLIC"

/-- Past an external identifier: one quoted text after `SYSTEM`, two after `PUBLIC`. -/
def skipExternalId (k : Cursor) : Except Error Cursor := do
  let next ← (← (k.skip 6).expectBlanks).skipQuoted
  if k.startsWith "SYSTEM" then return next
  else (← next.expectBlanks).skipQuoted

/-- Past the end of a declaration that is passed over. -/
def skipDeclaration (k : Cursor) : Option Cursor :=
  let next := (k.span (· ≠ '>')).2
  if next.atEnd then none else some next.advance

end Cursor

namespace Builder

/-- The definition of an entity: a replacement text if it is a quoted one. -/
def entityDefinition (isGeneral : Bool) (k : Cursor) : Except Error (Option Cursor × Cursor) :=
  match k.rest with
  | [] => .error .endOfText
  | c :: _ =>
    if c = '\x27' || c = '\x22' then do
      let (value, next) := k.advance.span (· ≠ c)
      return (some ⟨k.advance.position, value⟩, ← next.expectChar c)
    else if c = 'S' || c = 'P' then
      if k.startsExternalId then do
        let next ← k.skipExternalId
        if isGeneral && next.skipBlanks.startsWith "NDATA" then
          return (none, ← (← (next.skipBlanks.skip 5).expectBlanks).skipName)
        else return (none, next)
      else .error (.invalidExternalId k.position)
    else .error (.expectedKind "a quote, SYSTEM or PUBLIC" c k.position)

/-- An entity declaration; of several for one name the first counts. -/
def entityDeclaration (b : Builder) (k : Cursor) : Except Error (Builder × Cursor) := do
  let k ← (k.skip 8).expectBlanks
  let isGeneral := !k.startsWith "%"
  let k ← if isGeneral then pure k else k.advance.expectBlanks
  let (name, k) ← k.name
  let (definition, k) ← entityDefinition isGeneral (← k.expectBlanks)
  let b := match definition with
    | some text => { b with entities := b.entities ++ [(name, text)] }
    | none => b
  return (b, ← k.skipBlanks.expectChar '>')

/-- The declarations between brackets, and the end of the document type after them.  A
declaration that has no end counts against `start`, the place of the document type. -/
def internalSubset (start : Position) : Nat → Builder → Cursor → Except Error (Builder × Cursor)
  | 0, b, k => .ok (b, k)
  | fuel + 1, b, k =>
    if k.atEnd then .ok (b, k)
    else
      let k := k.skipBlanks
      if k.startsWith "<!ENTITY" then do
        let (b, k) ← b.entityDeclaration k
        internalSubset start fuel b k
      else if k.startsWith "<!--" then do
        let (b, k) ← b.comment k
        internalSubset start fuel b k
      else if k.startsWith "<?" then do
        let (b, k) ← b.instruction k
        internalSubset start fuel b k
      else if k.startsWith "]" then do
        return (b, ← k.advance.skipBlanks.expectChar '>')
      else if k.startsWith "<!ELEMENT" || k.startsWith "<!ATTLIST" || k.startsWith "<!NOTATION" then
        match k.skipDeclaration with
        | some k => internalSubset start fuel b k
        | none => .error (.unknownToken start)
      else .error (.unknownToken k.position)

/-- A document type declaration. -/
def doctype (b : Builder) (k : Cursor) : Except Error (Builder × Cursor) := do
  let start := k.position
  let k ← (← (k.skip 9).expectBlanks).skipName
  let k := k.skipBlanks
  let k ← if k.startsExternalId then k.skipExternalId else pure k
  let k := k.skipBlanks
  match k.rest with
  | [] => throw .endOfText
  | '>' :: _ => return (b, k.advance)
  | '[' :: _ => b.internalSubset start k.rest.length k.advance
  | c :: _ => throw (.expectedKind "'[' or '>'" c k.position)

end Builder
end GraphFolding.Xml
