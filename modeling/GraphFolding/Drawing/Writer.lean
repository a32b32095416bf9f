/-
Drawings as text: a declaration, then the nodes around the outermost element and that
element itself, each followed by a line feed.

* `Element.startText` — the tag of an element up to its closing bracket;
* `Drawing.nodeText` — a node and all that stands in it;
* `Drawing.text` — the whole drawing.
-/
import GraphFolding.Drawing.Basic
import GraphFolding.Xml.Escape
namespace GraphFolding

/-- A namespace declaration as it is written in a tag. -/
def declarationText (b : Xml.Binding) : String :=
  let name := match b.name with
    | some name => " xmlns:" ++ name
    | none => " xmlns"
  name ++ "=\"" ++ Xml.escapeAttribute b.uri ++ "\""

/-- An attribute as it is written in a tag. -/
def attributeText (a : String × String) : String :=
  " " ++ a.1 ++ "=\"" ++ Xml.escapeAttribute a.2 ++ "\""

/-- The tag of an element up to its closing bracket: declarations before attributes. -/
def Element.startText (e : Element) : String :=
  "<" ++ e.name ++ String.join (e.declarations.map declarationText) ++
    String.join (e.attributes.map attributeText)

/-- The text of an element around the text of its children; without children the tag is
closed at once. -/
def Element.text (e : Element) (isEmpty : Bool) (inner : String) : String :=
  if isEmpty then e.startText ++ "/>"
  else e.startText ++ ">" ++ inner ++ "</" ++ e.name ++ ">"

/-- The text of a node around the text of its children. -/
def Node.text (node : Node) (inner : String) : String :=
  match node.content with
  | .element e => e.text node.children.isEmpty inner
  | .text value => Xml.escapeText value
  | .comment value => "<!--" ++ value ++ "-->"
  | .instruction target none => "<?" ++ target ++ "?>"
  | .instruction target (some value) => "<?" ++ target ++ " " ++ value ++ "?>"

namespace Drawing

/-- A node and what stands in it, down to a depth. -/
def nodeTextWithin (d : Drawing) : Nat → NodeId → String
  | 0, _ => ""
  | depth + 1, id =>
    match d.nodes[id]? with
    | some node => node.text (String.join (node.children.map (d.nodeTextWithin depth)))
    | none => ""

/-- A node and what stands in it; no node lies deeper than there are nodes. -/
def nodeText (d : Drawing) (id : NodeId) : String := d.nodeTextWithin d.nodes.size id

/-- A node outside the outermost element, on a line of its own. -/
def lineText (d : Drawing) (id : NodeId) : String := d.nodeText id ++ "\n"

/-- The declaration at the head of a written drawing. -/
def header : String := "<?xml version=\"1.0\" encoding=\"UTF-8\" standalone=\"no\"?>\n"

/-- The whole drawing as text. -/
def text (d : Drawing) : String :=
  header ++ String.join (d.prologue.map d.lineText) ++ d.lineText d.root ++
    String.join (d.epilogue.map d.lineText)

end Drawing
end GraphFolding
