/-
Drawings from documents.

* `storedName` — the name kept for an element or an attribute: its local name under the
  first prefix in scope that is bound to its namespace;
* `Drawing.graft` — the nodes of a document entered into the table;
* `Drawing.ofString` — the drawing that a text holds, which has an `svg` element.

An element keeps the declarations that are not in force around it already.
-/
import GraphFolding.Drawing.Traversal
import GraphFolding.Xml.Reader
namespace GraphFolding

/-- The name kept for an element or an attribute. -/
def storedName (scope : Xml.Scope) (uri : Option String) (localPart : String) : String :=
  match uri with
  | none => localPart
  | some uri =>
    if uri = Xml.Scope.xmlUri then "xml:" ++ localPart
    else match scope.prefixFor? uri with
      | some p => if p.isEmpty then localPart else p ++ ":" ++ localPart
      | none => localPart

/-- The element of a tag, in a scope inherited from the element around it. -/
def Element.ofTag (inherited : Xml.Scope) (tag : Xml.Tag) : Element where
  name := storedName tag.scope tag.uri tag.written.localPart
  declarations := tag.scope.filter fun b => b.name ≠ some "xml" && !inherited.contains b
  attributes := tag.attributes.map fun a =>
    (storedName tag.scope a.uri a.written.localPart, a.value)

/-- Why a text is not a drawing. -/
inductive ReadError where
  | markup (error : Xml.Error)
  | noSvg
  deriving DecidableEq, Repr

/-- The text that names the failure; a fault has none. -/
def ReadError.message? : ReadError → Option String
  | markup error => error.message?.map ("failed to parse SVG: " ++ ·)
  | noSvg => some "document has no <svg> root element"

namespace Drawing

mutual

/-- A node of a document entered into the table after everything in it so far, with all
that stands in it; and its identity. -/
def graft (inherited : Xml.Scope) (parent : Option NodeId) (nodes : Array Node) :
    Xml.Node → Array Node × NodeId
  | .element tag children =>
    let id := nodes.size
    let (nodes, ids) := graftAll tag.scope id
      (nodes.push ⟨.element (.ofTag inherited tag), parent, []⟩) children
    (nodes.modify id fun node => { node with children := ids }, id)
  | .text value => (nodes.push ⟨.text value, parent, []⟩, nodes.size)
  | .comment value => (nodes.push ⟨.comment value, parent, []⟩, nodes.size)
  | .instruction target value =>
    (nodes.push ⟨.instruction target value, parent, []⟩, nodes.size)

/-- Several nodes entered one after the other, and their identities. -/
def graftAll (inherited : Xml.Scope) (parent : NodeId) (nodes : Array Node) :
    List Xml.Node → Array Node × List NodeId
  | [] => (nodes, [])
  | node :: rest =>
    let (nodes, id) := graft inherited (some parent) nodes node
    let (nodes, ids) := graftAll inherited parent nodes rest
    (nodes, id :: ids)

end

/-- A drawing under construction, whose outermost element may be still to come. -/
structure Outline where
  nodes : Array Node
  root : Option NodeId
  prologue : List NodeId
  epilogue : List NodeId

/-- One node outside every element entered into a drawing; text there is dropped. -/
def Outline.add (o : Outline) (node : Xml.Node) : Outline :=
  match node with
  | .text _ => o
  | _ =>
    let (nodes, id) := graft [] none o.nodes node
    if node.isElement then { o with nodes, root := some id }
    else if o.root.isSome then { o with nodes, epilogue := o.epilogue ++ [id] }
    else { o with nodes, prologue := o.prologue ++ [id] }

/-- The drawing of a document. -/
def ofDocument (nodes : List Xml.Node) : Except ReadError Drawing :=
  if !Xml.anyNamed "svg" nodes then .error .noSvg
  else
    let o := nodes.foldl Outline.add ⟨#[], none, [], []⟩
    match o.root with
    | some root => .ok ⟨o.nodes, root, o.prologue, o.epilogue⟩
    | none => .error .noSvg

/-- The drawing that a text holds. -/
def ofString (text : String) : Except ReadError Drawing :=
  match Xml.readDocument text with
  | .ok nodes => ofDocument nodes
  | .error e => .error (.markup e)

end Drawing
end GraphFolding
