/-
A drawing: the nodes of a document in a table, so that an element keeps its identity while
it is changed.

* `Drawing` — the table, the outermost element, and the comments and instructions around it;
* `attribute?`, `parent?`, `ancestor?`, `hasClass` — what is known of an element.

Element and attribute names are stored with the prefixes they are written with.
-/
import GraphFolding.ClassList
import GraphFolding.Xml.Document
namespace GraphFolding

/-- The identity of a node: its place in the table of its drawing. -/
abbrev NodeId := Nat

/-- An element of a drawing: its name, the namespaces it declares and its attributes. -/
structure Element where
  name : String
  declarations : List Xml.Binding
  attributes : List (String × String)
  deriving DecidableEq, Repr

namespace Element

/-- What follows the last colon of a name. -/
def localNameOf (name : String) : String :=
  String.ofList (name.toList.reverse.takeWhile (· ≠ ':')).reverse

/-- The name without its prefix. -/
def localName (e : Element) : String := localNameOf e.name

/-- The value of an attribute. -/
def attribute? (e : Element) (name : String) : Option String := e.attributes.lookup name

end Element

/-- What a node holds. -/
inductive NodeContent where
  | element (e : Element)
  | text (value : String)
  | comment (value : String)
  | instruction (target : String) (value : Option String)
  deriving DecidableEq, Repr

/-- A node of a drawing: what it holds and where it hangs. -/
structure Node where
  content : NodeContent
  parent : Option NodeId
  children : List NodeId
  deriving DecidableEq, Repr

/-- A drawing that can be changed. -/
structure Drawing where
  nodes : Array Node
  root : NodeId
  prologue : List NodeId
  epilogue : List NodeId
  deriving DecidableEq, Repr

namespace Drawing

/-- The element with an identity. -/
def element? (d : Drawing) (id : NodeId) : Option Element :=
  match d.nodes[id]? with
  | some { content := .element e, .. } => some e
  | _ => none

/-- The nodes directly below a node. -/
def children (d : Drawing) (id : NodeId) : List NodeId :=
  match d.nodes[id]? with
  | some node => node.children
  | none => []

/-- The node that a node hangs below. -/
def parent? (d : Drawing) (id : NodeId) : Option NodeId := d.nodes[id]?.bind (·.parent)

/-- The node a number of levels above a node. -/
def ancestor? (d : Drawing) (id : NodeId) : Nat → Option NodeId
  | 0 => some id
  | n + 1 => (d.parent? id).bind (d.ancestor? · n)

/-- The qualified name of an element. -/
def name? (d : Drawing) (id : NodeId) : Option String := (d.element? id).map (·.name)

/-- Whether a node is an element with a local name. -/
def isNamed (d : Drawing) (localName : String) (id : NodeId) : Bool :=
  (d.element? id).any (·.localName = localName)

/-- The value of an attribute of an element. -/
def attribute? (d : Drawing) (id : NodeId) (name : String) : Option String :=
  (d.element? id).bind (·.attribute? name)

/-- Whether the class list of an element holds a word. -/
def hasClass (d : Drawing) (id : NodeId) (word : String) : Bool :=
  (d.attribute? id "class").any fun value => (ClassList.words value).contains word

end Drawing
end GraphFolding
