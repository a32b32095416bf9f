/-
Whole documents: an optional declaration, comments and instructions, a document type, one
element, and comments and instructions again.

* `readDocument` — the nodes of a document outside every element, with the one element
  among them.
-/
import GraphFolding.Xml.Doctype
namespace GraphFolding.Xml

namespace Cursor

/-- Past a byte order mark. -/
def skipMark (k : Cursor) : Cursor :=
  if k.startsWith "\ufeff" then k.advance else k

/-- Past one pseudo-attribute of a declaration. -/
def skipAttribute (k : Cursor) : Except Error Cursor := do
  let (_, k) ← k.qualifiedName
  let (quote, k) ← (← k.expectEquals).expectQuote
  let (_, k) ← k.spanAllowed fun rest => rest.head? = some quote || rest.head? = some '<'
  k.expectChar quote

/-- Past the blanks between two parts of a declaration, which may be left out before its
end. -/
def skipSeparator (k : Cursor) : Except Error Cursor :=
  match k.rest with
  | [] => .ok k
  | c :: _ =>
    if isBlank c then .ok k.skipBlanks
    else if k.startsWith "?>" then .ok k
    else .error (.expectedKind "a whitespace" c k.position)

/-- Past a declaration: the version, and after it the encoding and the standalone flag. -/
def skipXmlDeclaration (k : Cursor) : Except Error Cursor := do
  let k ← (k.skip 5).skipSeparator
  if !k.startsWith "version" then
    throw (.expectedText "version" k.position)
  let k ← (← k.skipAttribute).skipSeparator
  let k ← if k.startsWith "encoding" then (← k.skipAttribute).skipSeparator else pure k
  let k ← if k.startsWith "standalone" then k.skipAttribute else pure k
  k.skipBlanks.expectText "?>"

end Cursor

namespace Builder

/-- Comments and instructions outside the element. -/
def miscellany : Nat → Builder → Cursor → Except Error (Builder × Cursor)
  | 0, b, k => .ok (b, k)
  | fuel + 1, b, k =>
    let k := k.skipBlanks
    if k.startsWith "<!--" then do
      let (b, k) ← b.comment k
      miscellany fuel b k
    else if k.startsWith "<?" then do
      let (b, k) ← b.instruction k
      miscellany fuel b k
    else .ok (b, k)

/-- The document type, if there is one, and what may stand after it. -/
def typed (b : Builder) (k : Cursor) : Except Error (Builder × Cursor) :=
  if k.startsWith "<!DOCTYPE" then do
    let (b, k) ← b.doctype k
    b.miscellany (k.rest.length + 1) k
  else .ok (b, k)

/-- The outermost element, if one begins here. -/
def outermost (b : Builder) (k : Cursor) : Except Error (Builder × Cursor) :=
  if k.startsWith "<" then do
    let (tagEnd, b, k) ← b.startTag Expansion.maxLevels k
    if tagEnd = .opened then b.content k else return (b, k)
  else .ok (b, k)

/-- The nodes outside every element, in order. -/
def finish (b : Builder) : Except Error (List Node) :=
  if b.path.isEmpty && !b.outer.any Node.isElement then .error .noRoot
  else if !b.path.isEmpty then .error .rootNotClosed
  else .ok b.outer.reverse

end Builder

/-- The nodes of a document outside every element. -/
def readDocument (text : String) : Except Error (List Node) := do
  let k := (Cursor.ofString text).skipMark
  let k ← if k.startsWith "<?xml " then k.skipXmlDeclaration else pure k
  let (b, k) ← Builder.miscellany (k.rest.length + 1) {} k
  let (b, k) ← b.typed k.skipBlanks
  let (b, k) ← b.outermost k.skipBlanks
  let (b, k) ← b.miscellany (k.rest.length + 1) k
  if !k.atEnd then throw (.unknownToken k.position)
  b.finish

end GraphFolding.Xml
