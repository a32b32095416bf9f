/-
Content: what stands between the start tag and the end tag of an element.

* `Builder.comment`, `Builder.instruction`, `Builder.cdata`, `Builder.startTag`,
  `Builder.endTag`, `Builder.plainText` — the pieces of content, each read at its first
  character;
* `Builder.content` — content up to the end tag that closes it.

The replacement text of an entity is content too.  It may leave elements open, which the
text after the reference then closes.
-/
import GraphFolding.Xml.CharacterData
namespace GraphFolding.Xml

/-- Whether a text occurs in another one. -/
def occursIn (s : List Char) : List Char → Bool
  | [] => s.isEmpty
  | c :: rest => s.isPrefixOf (c :: rest) || occursIn s rest

/-- How the reading of a start tag ended: with an open element, with an empty one, or with
the end of the text. -/
inductive TagEnd where
  | opened
  | closed
  | cut
  deriving DecidableEq, Repr

namespace Builder

/-- A comment; its text holds no two hyphens in a row and does not end in one. -/
def comment (b : Builder) (k : Cursor) : Except Error (Builder × Cursor) := do
  let (text, k') ← (k.skip 4).spanAllowedTo "-->"
  let k' ← k'.expectText "-->"
  if occursIn ['-', '-'] text || text.getLast? = some '-' then
    throw (.invalidComment k.position)
  return (b.append (.comment (String.ofList text)), k')

/-- A processing instruction; an empty value is none. -/
def instruction (b : Builder) (k : Cursor) : Except Error (Builder × Cursor) := do
  if k.startsWith "<?xml " then throw (.misplacedDeclaration k.position)
  let (target, k) ← (k.skip 2).name
  let (value, k) ← k.skipBlanks.spanAllowedTo "?>"
  let k ← k.expectText "?>"
  let value := if value.isEmpty then none else some (String.ofList value)
  return (b.append (.instruction target value), k)

/-- A CDATA section, whose text counts as character data even when it is empty. -/
def cdata (b : Builder) (k : Cursor) : Except Error (Builder × Cursor) := do
  let (written, k) ← (k.skip 9).spanAllowedTo "]]>"
  let k ← k.expectText "]]>"
  return (b.appendText (sectionText written), k)

/-- One attribute of a start tag. -/
def readAttribute (levels : Nat) (b : Builder) (k : Cursor) :
    Except Error (Builder × Cursor) := do
  let (name, k₁) ← k.qualifiedName
  let (quote, start) ← (← k₁.expectEquals).expectQuote
  let (written, k₂) ← start.spanAllowed fun rest => rest.head? = some quote || rest.head? = some '<'
  let k₂ ← k₂.expectChar quote
  let (value, references) ← attributeValue b.entities levels b.references ⟨start.position, written⟩
  let b ← { b with references }.declareAttribute name value k.position
  return (b, k₂)

/-- The attributes of a start tag and its end; a blank has to stand before each attribute. -/
def tagRest (levels : Nat) : Nat → Builder → Cursor → Except Error (TagEnd × Builder × Cursor)
  | 0, b, k => .ok (.cut, b, k)
  | fuel + 1, b, k =>
    let next := k.skipBlanks
    match k.rest, next.rest with
    | [], _ => .ok (.cut, b, k)
    | _, [] => .error .endOfText
    | _, '/' :: _ => do return (.closed, b, ← next.advance.expectChar '>')
    | _, '>' :: _ => .ok (.opened, b, next.advance)
    | first :: _, c :: _ =>
      if !isBlank first then .error (.expectedKind "a whitespace" c next.position)
      else do
        let (b, k) ← b.readAttribute levels next
        tagRest levels fuel b k

/-- A start tag, or the tag of an empty element. -/
def startTag (levels : Nat) (b : Builder) (k : Cursor) :
    Except Error (TagEnd × Builder × Cursor) := do
  let place := k.advance.position
  let (name, k) ← k.advance.qualifiedName
  let b ← b.beginTag name place
  let (tagEnd, b, k) ← b.tagRest levels (k.rest.length + 1) k
  match tagEnd with
  | .opened => return (tagEnd, ← b.startElement name place, k)
  | .closed => return (tagEnd, ← b.emptyElement name place, k)
  | .cut => return (tagEnd, b, k)

/-- An end tag. -/
def endTag (b : Builder) (k : Cursor) : Except Error (Builder × Cursor) := do
  let (name, k') ← (k.skip 2).qualifiedName
  let k' ← k'.skipBlanks.expectChar '>'
  return (← b.endElement name k.position, k')

/-- A run of text up to the next markup, in which `]]>` does not occur. -/
def plainText (inside : Bool) (replace : Builder → Position → Cursor → Except Error Builder)
    (b : Builder) (k : Cursor) : Except Error (Builder × Cursor) := do
  let (written, k') ← k.spanAllowed fun rest => rest.head? = some '<'
  if occursIn "]]>".toList written then throw (.sectionEndInText k'.position)
  let b ← b.characterData inside replace ⟨k.position, written⟩
  return (b, k')

/-- Content up to the end tag that closes it, or to the end of the text, with `depth`
elements open in it. -/
def contentWith (levels : Nat) (replace : Builder → Position → Cursor → Except Error Builder) :
    Nat → Nat → Builder → Cursor → Except Error (Builder × Cursor)
  | 0, _, b, k => .ok (b, k)
  | fuel + 1, depth, b, k =>
    match k.rest with
    | [] => .ok (b, k)
    | '<' :: '!' :: _ => do
      let (b, k) ←
        if k.startsWith "<!--" then b.comment k
        else if k.startsWith "<![CDATA[" then b.cdata k
        else throw (.unknownToken k.position)
      contentWith levels replace fuel depth b k
    | '<' :: '?' :: _ => do
      let (b, k) ← b.instruction k
      contentWith levels replace fuel depth b k
    | '<' :: '/' :: _ => do
      let (b, k) ← b.endTag k
      match depth with
      | 0 => return (b, k)
      | depth + 1 => contentWith levels replace fuel depth b k
    | '<' :: _ :: _ => do
      let (tagEnd, b, k) ← b.startTag levels k
      contentWith levels replace fuel (if tagEnd = .opened then depth + 1 else depth) b k
    | ['<'] => .error (.unknownToken k.position)
    | _ => do
      let (b, k) ← b.plainText (Expansion.isInside levels) replace k
      contentWith levels replace fuel depth b k

/-- The replacement text of an entity, where references may be nested in `levels` more
levels. -/
def replacement : Nat → Builder → Position → Cursor → Except Error Builder
  | 0, _, place, _ => .error (.referenceLoop place)
  | levels + 1, b, place, text => do
    let references ← Expansion.count (levels + 1) b.references place
    let (inner, _) ← contentWith levels (replacement levels) text.rest.length 0
      { b with references, latestTag := none } text
    return { inner with
      latestTag := b.latestTag
      references := Expansion.leave (levels + 1) inner.references }

/-- Content up to the end tag that closes it, or to the end of the text. -/
def content (b : Builder) (k : Cursor) : Except Error (Builder × Cursor) :=
  contentWith Expansion.maxLevels (replacement Expansion.maxLevels) k.rest.length 0 b k

end Builder
end GraphFolding.Xml
