/-
Changes to a drawing.

* `setAttribute`, `setClass` — the attributes of one element;
* `createElement`, `appendText`, `insertChild`, `appendChild` — new nodes and their places;
* `ensureNamespace` — a namespace declared on the outermost element.
-/
import GraphFolding.Drawing.Basic
namespace GraphFolding

/-- Attributes with one of them set: the first with its name is changed, a new one is put
at the end. -/
def setEntry (name value : String) : List (String × String) → List (String × String)
  | [] => [(name, value)]
  | (key, old) :: rest =>
    if key = name then (key, value) :: rest else (key, old) :: setEntry name value rest

/-- An element with one attribute set. -/
def Element.setAttribute (e : Element) (name value : String) : Element :=
  { e with attributes := setEntry name value e.attributes }

/-- An element with a namespace declared for a prefix, unless it declares the prefix already. -/
def Element.ensureNamespace (e : Element) (name uri : String) : Element :=
  if Xml.Scope.binds e.declarations (some name) then e
  else { e with declarations := e.declarations ++ [⟨some name, uri⟩] }

/-- A node whose content, if it is an element, is changed. -/
def Node.mapElement (change : Element → Element) (node : Node) : Node :=
  match node.content with
  | .element e => { node with content := .element (change e) }
  | _ => node

namespace Drawing

/-- A change to one node. -/
def modifyNode (d : Drawing) (id : NodeId) (change : Node → Node) : Drawing :=
  { d with nodes := d.nodes.modify id change }

/-- A change to one element. -/
def modifyElement (d : Drawing) (id : NodeId) (change : Element → Element) : Drawing :=
  d.modifyNode id (·.mapElement change)

/-- One attribute of an element set. -/
def setAttribute (d : Drawing) (id : NodeId) (name value : String) : Drawing :=
  d.modifyElement id (·.setAttribute name value)

/-- A word added to the class list of an element. -/
def addClass (d : Drawing) (id : NodeId) (word : String) : Drawing :=
  d.setAttribute id "class" (ClassList.switch ((d.attribute? id "class").getD "") word true)

/-- A word removed from the class list of an element, if it has one. -/
def removeClass (d : Drawing) (id : NodeId) (word : String) : Drawing :=
  match d.attribute? id "class" with
  | some value => d.setAttribute id "class" (ClassList.switch value word false)
  | none => d

/-- A word of the class list of an element switched on or off. -/
def setClass (d : Drawing) (id : NodeId) (word : String) (on : Bool) : Drawing :=
  if on then d.addClass id word else d.removeClass id word

/-- A new node, and its identity. -/
def pushNode (d : Drawing) (content : NodeContent) (parent : Option NodeId) : Drawing × NodeId :=
  ({ d with nodes := d.nodes.push ⟨content, parent, []⟩ }, d.nodes.size)

/-- A new element that hangs nowhere yet, and its identity. -/
def createElement (d : Drawing) (name : String) (attributes : List (String × String)) :
    Drawing × NodeId :=
  d.pushNode (.element ⟨name, [], attributes⟩) none

/-- A change to the children of a node. -/
def modifyChildren (d : Drawing) (id : NodeId) (change : List NodeId → List NodeId) : Drawing :=
  d.modifyNode id fun node => { node with children := change node.children }

/-- New text after the children of an element. -/
def appendText (d : Drawing) (parent : NodeId) (value : String) : Drawing :=
  let (d, id) := d.pushNode (.text value) (some parent)
  d.modifyChildren parent (· ++ [id])

/-- A node put at a place among the children of another one; a place beyond the end is the
end. -/
def insertChild (d : Drawing) (parent : NodeId) (index : Nat) (child : NodeId) : Drawing :=
  let d := d.modifyNode child fun node => { node with parent := some parent }
  d.modifyChildren parent fun children => children.take index ++ child :: children.drop index

/-- A node put after the children of another one. -/
def appendChild (d : Drawing) (parent child : NodeId) : Drawing :=
  d.insertChild parent (d.children parent).length child

/-- A namespace declared for a prefix on the outermost element, unless it declares the
prefix already. -/
def ensureNamespace (d : Drawing) (name uri : String) : Drawing :=
  d.modifyElement d.root (·.ensureNamespace name uri)

end Drawing
end GraphFolding
