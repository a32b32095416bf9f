/-
Where a document breaks the rules of markup, and how.

* `Position` — row and column of a character, both from 1;
* `Error` — the ways in which a text fails to be a document;
* `Error.message?` — the text that names the failure and its place.
-/
import GraphFolding.Text.Quoted
namespace GraphFolding.Xml

/-- Row and column of a character of the text, both counted from 1. -/
structure Position where
  row : Nat
  column : Nat
  deriving DecidableEq, Repr

namespace Position

/-- The first character of a text. -/
def start : Position := ⟨1, 1⟩

/-- The place after a character. -/
def after (p : Position) (c : Char) : Position :=
  if c = '\n' then ⟨p.row + 1, 1⟩ else ⟨p.row, p.column + 1⟩

/-- `row:column`. -/
def text (p : Position) : String := toString p.row ++ ":" ++ toString p.column

end Position

/-- The first byte of a character's encoding, as a character of its own. -/
def leadByte (c : Char) : Char :=
  if c.toNat < 0x80 then c
  else if c.toNat < 0x800 then Char.ofNat (0xc0 + c.toNat / 0x40)
  else if c.toNat < 0x10000 then Char.ofNat (0xe0 + c.toNat / 0x1000)
  else Char.ofNat (0xf0 + c.toNat / 0x40000)

/-- The ways in which a text fails to be a document. -/
inductive Error where
  /-- A declaration that is not at the very start. -/
  | misplacedDeclaration (place : Position)
  | invalidName (place : Position)
  | forbiddenCharacter (found : Char) (place : Position)
  /-- A definite character was due. -/
  | expectedChar (expected found : Char) (place : Position)
  /-- One of several characters was due. -/
  | expectedKind (expected : String) (found : Char) (place : Position)
  /-- A definite text was due. -/
  | expectedText (expected : String) (place : Position)
  | invalidExternalId (place : Position)
  | invalidComment (place : Position)
  /-- The end of a CDATA section in plain character data. -/
  | sectionEndInText (place : Position)
  | unknownToken (place : Position)
  | endOfText
  /-- An element under the reserved prefix `xmlns`. -/
  | reservedElementPrefix (place : Position)
  | malformedReference (place : Position)
  | unknownReference (name : String) (place : Position)
  | referenceLoop (place : Position)
  | lessThanInEntity (place : Position)
  | mismatchedEndTag (expected found : String) (place : Position)
  /-- An end tag that begins the replacement text of an entity. -/
  | strayEndTag (place : Position)
  /-- A fault: an end tag where no element is open. -/
  | endTagOutside (place : Position)
  | unknownPrefix (name : String) (place : Position)
  | duplicateAttribute (name : String) (place : Position)
  | duplicatePrefix (name : String) (place : Position)
  /-- The namespace of `xmlns` was declared. -/
  | declaresXmlns (place : Position)
  /-- The prefix `xml` was bound to a namespace that is not its own. -/
  | wrongXmlNamespace (place : Position)
  /-- The namespace of `xml` was bound to another prefix. -/
  | wrongXmlPrefix (place : Position)
  | noRoot
  | rootNotClosed
  deriving DecidableEq, Repr

/-- The text that names a failure; a fault has none. -/
def Error.message? : Error → Option String
  | misplacedDeclaration p => some ("unexpected XML declaration at " ++ p.text)
  | invalidName p => some ("invalid name token at " ++ p.text)
  | forbiddenCharacter c p =>
    some ("a non-XML character " ++ Text.quotedChar c ++ " found at " ++ p.text)
  | expectedChar e c p =>
    some ("expected '" ++ e.toString ++ "' not '" ++ (leadByte c).toString ++ "' at " ++ p.text)
  | expectedKind e c p =>
    some ("expected " ++ e ++ " not '" ++ (leadByte c).toString ++ "' at " ++ p.text)
  | expectedText e p => some ("expected '" ++ e ++ "' at " ++ p.text)
  | invalidExternalId p => some ("invalid ExternalID at " ++ p.text)
  | invalidComment p => some ("comment at " ++ p.text ++ " contains '--'")
  | sectionEndInText p =>
    some ("']]>' at " ++ p.text ++ " is not allowed inside a character data")
  | unknownToken p => some ("unknown token at " ++ p.text)
  | endOfText => some "unexpected end of stream"
  | reservedElementPrefix p =>
    some ("the 'xmlns' prefix is used at " ++ p.text ++ ", but it must not be")
  | malformedReference p => some ("malformed entity reference at " ++ p.text)
  | unknownReference name p =>
    some ("unknown entity reference '" ++ name ++ "' at " ++ p.text)
  | referenceLoop p => some ("a possible entity reference loop is detected at " ++ p.text)
  | lessThanInEntity p => some ("unescaped '<' found at " ++ p.text)
  | mismatchedEndTag e f p =>
    some ("expected '" ++ e ++ "' tag, not '" ++ f ++ "' at " ++ p.text)
  | strayEndTag p => some ("unexpected close tag at " ++ p.text)
  | endTagOutside _ => none
  | unknownPrefix name p =>
    some ("an unknown namespace prefix '" ++ name ++ "' at " ++ p.text)
  | duplicateAttribute name p =>
    some ("attribute '" ++ name ++ "' at " ++ p.text ++ " is already defined")
  | duplicatePrefix name p =>
    some ("namespace '" ++ name ++ "' at " ++ p.text ++ " is already defined")
  | declaresXmlns p =>
    some ("the 'xmlns' URI is used at " ++ p.text ++ ", but it must not be declared")
  | wrongXmlNamespace p =>
    some ("'xml' namespace prefix mapped to wrong URI at " ++ p.text)
  | wrongXmlPrefix p =>
    some ("the 'xml' namespace URI is used for not 'xml' prefix at " ++ p.text)
  | noRoot => some "the document does not have a root node"
  | rootNotClosed => some "the root node was opened but never closed"

end GraphFolding.Xml
