/-
A document under construction: the open elements, what has been read of the start tag at
hand, and the entities.

* `Builder.appendText` — character data, joined to text that directly precedes it;
* `Builder.declareAttribute` — an attribute or a namespace declaration of the start tag;
* `Builder.startElement`, `Builder.emptyElement`, `Builder.endElement` — the three ends of
  a tag, where its names are resolved.
-/
import GraphFolding.Xml.Document
import GraphFolding.Xml.Reference
namespace GraphFolding.Xml

/-- An attribute whose prefix is not resolved yet, and where it stands. -/
structure PendingAttribute where
  written : QName
  value : String
  place : Position

/-- An element whose end tag is still to come; its children are held latest first. -/
structure OpenElement where
  tag : Tag
  children : List Node

/-- A document under construction. -/
structure Builder where
  entities : Entities := []
  /-- The entity references followed so far below the outermost one. -/
  references : Nat := 0
  /-- The open elements, the innermost first. -/
  path : List OpenElement := []
  /-- The nodes outside every element, latest first. -/
  outer : List Node := []
  /-- Whether character data continues the latest node. -/
  joins : Bool := false
  /-- The latest start tag of the text being read: its name and the place of the name. -/
  latestTag : Option (QName × Position) := none
  /-- The bindings declared by the tag at hand. -/
  declared : List Binding := []
  /-- The attributes of the tag at hand. -/
  pending : List PendingAttribute := []

namespace Builder

/-- The bindings in force where the next element would stand. -/
def outerScope (b : Builder) : Scope :=
  match b.path with
  | [] => []
  | e :: _ => e.tag.scope

/-- A change to the nodes at the place where the next node would stand, latest first. -/
def modifyNodes (b : Builder) (change : List Node → List Node) : Builder :=
  match b.path with
  | [] => { b with outer := change b.outer }
  | e :: rest => { b with path := { e with children := change e.children } :: rest }

/-- A node that is not text. -/
def append (b : Builder) (node : Node) : Builder :=
  { b.modifyNodes (node :: ·) with joins := false }

/-- Character data added to a list of nodes, latest first. -/
def joinText (joins : Bool) (value : String) : List Node → List Node
  | .text before :: rest =>
    if joins then .text (before ++ value) :: rest else .text value :: .text before :: rest
  | nodes => .text value :: nodes

/-- Character data, joined to text that directly precedes it. -/
def appendText (b : Builder) (value : String) : Builder :=
  { b.modifyNodes (joinText b.joins value) with joins := true }

/-- The beginning of a start tag. -/
def beginTag (b : Builder) (name : QName) (place : Position) : Except Error Builder :=
  if name.qualifier = "xmlns" then .error (.reservedElementPrefix place)
  else .ok { b with joins := false, latestTag := some (name, place) }

/-- A namespace declaration for a prefix. -/
def declarePrefix (b : Builder) (name uri : String) (place : Position) :
    Except Error Builder :=
  if uri = Scope.xmlnsUri then .error (.declaresXmlns place)
  else if name = "xml" && uri ≠ Scope.xmlUri then .error (.wrongXmlNamespace place)
  else if name ≠ "xml" && uri = Scope.xmlUri then .error (.wrongXmlPrefix place)
  else if Scope.binds b.declared (some name) then .error (.duplicatePrefix name place)
  else if uri = Scope.xmlUri then .ok b
  else .ok { b with declared := b.declared ++ [⟨some name, uri⟩] }

/-- A declaration of the default namespace. -/
def declareDefault (b : Builder) (uri : String) (place : Position) : Except Error Builder :=
  if uri = Scope.xmlUri then .error (.wrongXmlPrefix place)
  else if uri = Scope.xmlnsUri then .error (.declaresXmlns place)
  else .ok { b with declared := b.declared ++ [⟨none, uri⟩] }

/-- An attribute of the tag at hand, which may be a namespace declaration. -/
def declareAttribute (b : Builder) (name : QName) (value : String) (place : Position) :
    Except Error Builder :=
  if name.qualifier = "xmlns" then b.declarePrefix name.localPart value place
  else if name.localPart = "xmlns" then b.declareDefault value place
  else .ok { b with pending := b.pending ++ [⟨name, value, place⟩] }

/-- The namespace of a prefix that is not empty. -/
def resolvePrefix (scope : Scope) (name : String) (place : Position) : Except Error String :=
  match scope.uri? (some name) with
  | some uri => .ok uri
  | none => .error (.unknownPrefix name place)

/-- An attribute with its namespace; one without a prefix has none. -/
def resolveAttribute (scope : Scope) (a : PendingAttribute) : Except Error Attribute :=
  match a.written.qualifier? with
  | none => .ok ⟨a.written, none, a.value⟩
  | some "xml" => .ok ⟨a.written, some Scope.xmlUri, a.value⟩
  | some name => do
    let uri ← resolvePrefix scope name a.place
    return ⟨a.written, some uri, a.value⟩

/-- Whether two attributes have the same namespace and local name. -/
def sameName (a b : Attribute) : Bool :=
  a.uri = b.uri && a.written.localPart = b.written.localPart

/-- The attributes of a tag with their namespaces, after those resolved already. -/
def resolveAttributes (scope : Scope) (found : List Attribute) :
    List PendingAttribute → Except Error (List Attribute)
  | [] => .ok found
  | a :: rest => do
    let resolved ← resolveAttribute scope a
    if found.any (sameName resolved) then
      throw (.duplicateAttribute a.written.localPart a.place)
    resolveAttributes scope (found ++ [resolved]) rest

/-- The namespace of an element; without a prefix the default one counts. -/
def resolveElement (scope : Scope) (name : QName) (place : Position) :
    Except Error (Option String) :=
  match name.qualifier? with
  | none => .ok (scope.uri? none)
  | some p => do return some (← resolvePrefix scope p place)

/-- The attributes and the scope of the tag at hand, and the builder without them. -/
def takeTag (b : Builder) : Except Error (Scope × List Attribute × Builder) := do
  let scope := Scope.extend b.declared b.outerScope
  let attributes ← resolveAttributes scope [] b.pending
  return (scope, attributes, { b with joins := false, declared := [], pending := [] })

/-- The tag at hand as the start tag of an element. -/
def takeStartTag (b : Builder) (name : QName) (place : Position) :
    Except Error (Tag × Builder) := do
  let (scope, attributes, b) ← b.takeTag
  let uri ← resolveElement scope name place
  return (⟨name, uri, scope, attributes⟩, b)

/-- The end of a start tag: an element is open. -/
def startElement (b : Builder) (name : QName) (place : Position) : Except Error Builder := do
  let (tag, b) ← b.takeStartTag name place
  return { b with path := ⟨tag, []⟩ :: b.path }

/-- The end of an empty tag: an element without children. -/
def emptyElement (b : Builder) (name : QName) (place : Position) : Except Error Builder := do
  let (tag, b) ← b.takeStartTag name place
  return b.append (.element tag [])

/-- An end tag: the innermost element is closed. -/
def endElement (b : Builder) (name : QName) (place : Position) : Except Error Builder := do
  if b.latestTag.isNone then throw (.strayEndTag place)
  let (_, _, b) ← b.takeTag
  match b.path with
  | [] => throw (.endTagOutside place)
  | e :: rest =>
    if e.tag.written ≠ name then
      throw (.mismatchedEndTag e.tag.written.text name.text place)
    return { b with path := rest }.append (.element e.tag e.children.reverse)

end Builder
end GraphFolding.Xml
