/-
Document order: an element before what stands in it, siblings in their order.

* `descendants` — a node and everything below it, by a walk with a stack of nodes still to
  be visited;
* `elementsNamed`, `elementsWithClass`, `anchors`, `svgRoot?` — searches in that order;
* `textOf`, `descendantText?` — the text below an element.

Nothing hangs below itself, so a node lies at most as deep as there are nodes; this bounds
the size of what hangs below a node, and with it the walk.
-/
import GraphFolding.Drawing.Basic
namespace GraphFolding.Drawing

/-- The number of nodes at and below a node, down to a depth. -/
def sizeWithin (d : Drawing) : Nat → NodeId → Nat
  | 0, _ => 1
  | depth + 1, id => (d.children id).foldr (fun c size => d.sizeWithin depth c + size) 1

/-- The number of nodes at and below a node. -/
def size (d : Drawing) (id : NodeId) : Nat := d.sizeWithin d.nodes.size id

/-- The nodes met by a walk from a stack of nodes, the top one first. -/
def walk (d : Drawing) : Nat → List NodeId → List NodeId
  | 0, _ => []
  | _ + 1, [] => []
  | fuel + 1, id :: stack => id :: d.walk fuel (d.children id ++ stack)

/-- A node and everything below it, in document order. -/
def descendants (d : Drawing) (id : NodeId) : List NodeId := d.walk (d.size id) [id]

/-- The elements of the drawing with a local name. -/
def elementsNamed (d : Drawing) (localName : String) : List NodeId :=
  (d.descendants d.root).filter (d.isNamed localName)

/-- The elements of the drawing whose class list holds a word. -/
def elementsWithClass (d : Drawing) (word : String) : List NodeId :=
  (d.descendants d.root).filter (d.hasClass · word)

/-- The links of the drawing. -/
def anchors (d : Drawing) : List NodeId := d.elementsNamed "a"

/-- The first `svg` element, which is the outermost element of a plain drawing. -/
def svgRoot? (d : Drawing) : Option NodeId :=
  (d.descendants d.root).find? (d.isNamed "svg")

/-- The text of a node, if it is text. -/
def textAt (d : Drawing) (id : NodeId) : String :=
  match d.nodes[id]? with
  | some { content := .text value, .. } => value
  | _ => ""

/-- All text below an element, joined. -/
def textOf (d : Drawing) (id : NodeId) : String :=
  String.join ((d.descendants id).map d.textAt)

/-- The text of the first element below an element that has a local name. -/
def descendantText? (d : Drawing) (id : NodeId) (localName : String) : Option String :=
  (((d.descendants id).drop 1).find? (d.isNamed localName)).map d.textOf

end GraphFolding.Drawing
