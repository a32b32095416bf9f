/-
Document order is the order in which a drawing is written.

The writer goes down the tree by recursion, and puts out a tag or a text for every node that it
comes to; the walk with a stack has to meet the nodes in the order of these.

* `Piece` — what is put out at once: the opening tag or the text of a node, or a closing tag;
* `Drawing.pieces`, `Drawing.joined_pieces` — a written node, piece by piece;
* `Piece.opened` — the nodes in the order in which they are opened;
* `ChildForest.descendants_eq_opened` — a walk meets the nodes in this order;
* `Drawing.InWrittenOrder` — what follows for the walks and searches in a drawing;
* `searches_follow_text` — so it is in every drawing whose lists of children form a forest, and for
  the headers in it, once it is wired, at any time.
-/
import GraphFolding.Proofs.Clickable
import GraphFolding.Proofs.Editing
namespace GraphFolding

/-! ### Pieces -/

/-- A part of a written drawing: the text that a node begins with, or is closed by. -/
structure Piece where
  node : NodeId
  opens : Bool
  text : String
  deriving DecidableEq, Repr

namespace Piece

/-- The text of several pieces, one after the other. -/
def joined (pieces : List Piece) : String := String.join (pieces.map (·.text))

/-- The nodes that several pieces begin with, in the order of the pieces. -/
def opened (pieces : List Piece) : List NodeId := (pieces.filter (·.opens)).map (·.node)

theorem joined_append (ps qs : List Piece) : joined (ps ++ qs) = joined ps ++ joined qs := by
  rw [joined, List.map_append, String.join_append]
  rfl

theorem joined_cons (p : Piece) (ps : List Piece) : joined (p :: ps) = p.text ++ joined ps := by
  rw [joined, List.map_cons, String.join_cons]
  rfl

theorem joined_singleton (p : Piece) : joined [p] = p.text := by
  rw [joined_cons]
  exact String.append_empty

theorem joined_flatMap {α : Type} (f : α → List Piece) (l : List α) :
    joined (l.flatMap f) = String.join (l.map fun a => joined (f a)) := by
  induction l with
  | nil => rfl
  | cons a l ih => rw [List.flatMap_cons, joined_append, ih, List.map_cons, String.join_cons]

theorem opened_append (ps qs : List Piece) : opened (ps ++ qs) = opened ps ++ opened qs := by
  rw [opened, List.filter_append, List.map_append]
  rfl

theorem opened_flatMap {α : Type} (f : α → List Piece) (l : List α) :
    opened (l.flatMap f) = l.flatMap fun a => opened (f a) := by
  induction l with
  | nil => rfl
  | cons a l ih => rw [List.flatMap_cons, opened_append, ih, List.flatMap_cons]

end Piece

open Piece

/-- The pieces of an element around those of its children. -/
def Element.pieces (e : Element) (id : NodeId) (isEmpty : Bool) (inner : List Piece) : List Piece :=
  if isEmpty then [⟨id, true, e.startText ++ "/>"⟩]
  else ⟨id, true, e.startText ++ ">"⟩ :: inner ++ [⟨id, false, "</" ++ e.name ++ ">"⟩]

/-- The pieces of a node around those of its children. -/
def Node.pieces (node : Node) (id : NodeId) (inner : List Piece) : List Piece :=
  match node.content with
  | .element e => e.pieces id node.children.isEmpty inner
  | _ => [⟨id, true, node.text ""⟩]

namespace Drawing

/-- The pieces of a node and of what stands in it, down to a depth. -/
def piecesWithin (d : Drawing) : Nat → NodeId → List Piece
  | 0, _ => []
  | depth + 1, id =>
    match d.nodes[id]? with
    | some node => node.pieces id (node.children.flatMap (d.piecesWithin depth))
    | none => []

/-- The pieces of a node and of what stands in it. -/
def pieces (d : Drawing) (id : NodeId) : List Piece := d.piecesWithin d.nodes.size id

end Drawing

theorem Element.joined_pieces (e : Element) (id : NodeId) (isEmpty : Bool) (inner : List Piece) :
    joined (e.pieces id isEmpty inner) = e.text isEmpty (joined inner) := by
  unfold Element.pieces Element.text
  split
  · exact joined_singleton _
  · rw [joined_append, joined_cons, joined_singleton]
    simp only [String.append_assoc]

theorem Node.joined_pieces (node : Node) (id : NodeId) (inner : List Piece) :
    joined (node.pieces id inner) = node.text (joined inner) := by
  obtain ⟨content, parent, children⟩ := node
  cases content with
  | element e => exact e.joined_pieces id children.isEmpty inner
  | text value => exact joined_singleton _
  | comment value => exact joined_singleton _
  | instruction target value => cases value <;> exact joined_singleton _

/-- An element is opened before what stands in it. -/
theorem Element.opened_pieces (e : Element) (id : NodeId) {isEmpty : Bool} {inner : List Piece}
    (hempty : isEmpty = true → inner = []) :
    opened (e.pieces id isEmpty inner) = id :: opened inner := by
  unfold Element.pieces
  split
  · rename_i h
    rw [hempty h]
    rfl
  · rw [opened_append, opened, List.filter_cons_of_pos rfl, List.map_cons]
    exact List.append_nil _

namespace Drawing

variable {d d' : Drawing}

theorem joined_piecesWithin (d : Drawing) (depth : Nat) : ∀ id : NodeId,
    joined (d.piecesWithin depth id) = d.nodeTextWithin depth id := by
  induction depth with
  | zero => exact fun _ => rfl
  | succ depth ih =>
    intro id
    rw [piecesWithin, nodeTextWithin]
    rcases d.nodes[id]? with _ | node
    · rfl
    · show joined (node.pieces id _) = node.text _
      rw [node.joined_pieces, joined_flatMap, List.map_congr_left fun c _ => ih c]

/-- The pieces of a node are its text. -/
theorem joined_pieces (d : Drawing) (id : NodeId) : joined (d.pieces id) = d.nodeText id :=
  d.joined_piecesWithin d.nodes.size id

/-- The text of a drawing around the pieces of its outermost element. -/
theorem text_eq_joined (d : Drawing) : d.text = header ++ String.join (d.prologue.map d.lineText) ++
    joined (d.pieces d.root) ++ "\n" ++ String.join (d.epilogue.map d.lineText) := by
  rw [text, lineText, joined_pieces]
  simp only [String.append_assoc]

/-! ### The order of the pieces -/

namespace ChildForest

variable (hd : d.ChildForest)
include hd

/-- What is no element is opened alone, and nothing stands in it. -/
theorem opened_pieces_node {id : NodeId} {node : Node} (hnode : d.nodes[id]? = some node)
    {inner : List Piece} (hinner : node.children = [] → inner = []) :
    opened (node.pieces id inner) = id :: opened inner := by
  have hchildren := hd.elements id
  rw [children_of_getElem? hnode, element?, hnode] at hchildren
  obtain ⟨content, parent, children⟩ := node
  cases content with
  | element e => exact e.opened_pieces id fun h => hinner (List.isEmpty_iff.mp h)
  | _ =>
    have hnil : children = [] := by
      by_contra hne
      simpa using hchildren hne
    rw [hinner hnil]
    rfl

/-- The nodes are opened in the order of the recursion over the tree.  Where a depth cuts off the
recursion, the writer still needs one level more for the node itself. -/
theorem opened_piecesWithin {n : Nat} : ∀ {id : NodeId}, id < d.nodes.size →
    opened (d.piecesWithin (n + 1) id) = d.preorderWithin n id := by
  induction n with
  | zero =>
    intro id hid
    have hnode := Array.getElem?_eq_getElem hid
    have hnone : (d.nodes[id].children.flatMap (d.piecesWithin 0)) = [] :=
      List.flatMap_eq_nil_iff.mpr fun _ _ => rfl
    rw [piecesWithin, hnode]
    show opened (d.nodes[id].pieces id _) = _
    rw [hnone, hd.opened_pieces_node hnode fun _ => rfl]
    rfl
  | succ n ih =>
    intro id hid
    have hnode := Array.getElem?_eq_getElem hid
    have hchildren := children_of_getElem? hnode
    rw [piecesWithin, hnode]
    show opened (d.nodes[id].pieces id _) = _
    rw [hd.opened_pieces_node hnode (fun h => by rw [h]; rfl), opened_flatMap, preorderWithin,
      hchildren, List.flatMap_def, List.flatMap_def]
    rw [List.map_congr_left fun c hc => ih (hd.valid id c (hchildren ▸ hc))]

/-- A walk meets the nodes in the order in which they are written. -/
theorem descendants_eq_opened {id : NodeId} (hid : id < d.nodes.size) :
    d.descendants id = opened (d.pieces id) := by
  have hdepth := depthAtMost_pred_of_acyclic hd.acyclic hd.valid hid
  have hsize : d.nodes.size = d.nodes.size - 1 + 1 :=
    (Nat.sub_add_cancel (Nat.zero_lt_of_lt hid)).symm
  have hpieces : opened (d.pieces id) = d.preorderWithin (d.nodes.size - 1) id := by
    rw [pieces, hsize, Nat.add_sub_cancel]
    exact hd.opened_piecesWithin hid
  rw [hpieces, hd.descendants_eq, preorder, preorderWithin_eq (Nat.sub_le ..) hdepth]

end ChildForest

theorem pieces_eq_nil {id : NodeId} (hid : d.nodes.size ≤ id) : d.pieces id = [] := by
  unfold pieces
  cases d.nodes.size with
  | zero => rfl
  | succ n => rw [piecesWithin, Array.getElem?_eq_none hid]

theorem ChildForest.descendants_eq_singleton (hd : d.ChildForest) {id : NodeId}
    (hid : d.nodes.size ≤ id) : d.descendants id = [id] := by
  rw [hd.descendants_eq, preorder, preorderWithin_eq_singleton (children_eq_nil_of_size_le hid)]

/-- What is searched for below a node is found in the order in which it is written. -/
theorem ChildForest.filter_descendants (hd : d.ChildForest) (id : NodeId) {p : NodeId → Bool}
    (hp : ∀ x, p x = true → d.isElement x) :
    (d.descendants id).filter p = (opened (d.pieces id)).filter p := by
  by_cases hid : id < d.nodes.size
  · rw [hd.descendants_eq_opened hid]
  · -- A number that no node has is met by the walk, but found by no search.
    have hge := Nat.le_of_not_lt hid
    have hno : p id = false := by
      by_contra h
      exact hid (lt_size_of_isElement (hp id (by simpa using h)))
    rw [hd.descendants_eq_singleton hge, pieces_eq_nil hge, List.filter_cons, hno]
    rfl

theorem textAt_eq_empty {id : NodeId} (hid : d.nodes.size ≤ id) : d.textAt id = "" := by
  rw [textAt, Array.getElem?_eq_none hid]

theorem ChildForest.textOf_eq (hd : d.ChildForest) (id : NodeId) :
    d.textOf id = String.join ((opened (d.pieces id)).map d.textAt) := by
  by_cases hid : id < d.nodes.size
  · rw [textOf, hd.descendants_eq_opened hid]
  · have hge := Nat.le_of_not_lt hid
    rw [textOf, hd.descendants_eq_singleton hge, pieces_eq_nil hge, List.map_singleton,
      textAt_eq_empty hge]
    rfl

/-! ### Walks and searches -/

/-- A drawing whose walks and searches go in the order of its text. -/
structure InWrittenOrder (d : Drawing) : Prop where
  text : d.text = header ++ String.join (d.prologue.map d.lineText) ++ joined (d.pieces d.root) ++
    "\n" ++ String.join (d.epilogue.map d.lineText)
  nodeText (id : NodeId) : d.nodeText id = joined (d.pieces id)
  ends (id : NodeId) : d.Yields [id] (d.descendants id)
  mem_iff {id x : NodeId} : x ∈ d.descendants id ↔ d.Below id x
  nodup (id : NodeId) : (d.descendants id).Nodup
  order {id : NodeId} : id < d.nodes.size → d.descendants id = opened (d.pieces id)
  textOf (id : NodeId) : d.textOf id = String.join ((opened (d.pieces id)).map d.textAt)
  named (name : String) :
    d.elementsNamed name = (opened (d.pieces d.root)).filter (d.isNamed name)
  anchors : d.anchors = (opened (d.pieces d.root)).filter (d.isNamed "a")
  withClass (word : String) :
    d.elementsWithClass word = (opened (d.pieces d.root)).filter (d.hasClass · word)
  svgRoot : d.svgRoot? = (opened (d.pieces d.root)).find? (d.isNamed "svg")
  frame (r : FoldRules) (cluster : String) : d.clusterFrame? r cluster =
    (opened (d.pieces d.root)).find? fun id => d.hasClass id r.frameClass &&
      d.descendantText? id "title" = some (r.frameTitle cluster)

theorem ChildForest.inWrittenOrder (hd : d.ChildForest) : d.InWrittenOrder where
  text := d.text_eq_joined
  nodeText id := (d.joined_pieces id).symm
  ends := hd.yields_descendants
  mem_iff := hd.mem_descendants_iff
  nodup := hd.nodup_descendants
  order := hd.descendants_eq_opened
  textOf := hd.textOf_eq
  named name := hd.filter_descendants d.root fun _ => isElement_of_isNamed
  anchors := hd.filter_descendants d.root fun _ => isElement_of_isNamed
  withClass word := hd.filter_descendants d.root fun _ => isElement_of_hasClass
  svgRoot := by
    rw [svgRoot?, ← List.head?_filter, ← List.head?_filter,
      hd.filter_descendants d.root fun _ => isElement_of_isNamed]
  frame r cluster := by
    rw [clusterFrame?, elementsWithClass,
      hd.filter_descendants d.root fun _ => isElement_of_hasClass, List.find?_filter]
    simp only [Bool.decide_and, Bool.decide_eq_true]

/-- Whatever is changed within tags, names apart, the lists of children form a forest as before. -/
theorem ChildForest.of_skeleton_eq (hd : d.ChildForest) (h : d'.skeleton = d.skeleton) :
    d'.ChildForest := by
  have hchildren := funext (children_eq_of_skeleton_eq h)
  constructor
  · rw [hchildren]
    exact hd.acyclic
  · rw [hchildren, size_eq_of_skeleton_eq h]
    exact hd.valid
  · rw [hchildren]
    exact hd.nodup
  · rw [hchildren]
    exact hd.unique
  · intro id hne
    rw [hchildren] at hne
    show d'.isElement id = true
    rw [isElement_eq_isSome_name?, name?_eq_of_skeleton_eq h, ← isElement_eq_isSome_name?]
    exact hd.elements id hne

/-- The header that is found for a cluster comes first of all its headers in document order. -/
theorem headerFor?_afterActions (d : Drawing) (r : FoldRules) (actions : List FoldAction)
    (cluster : String) : (d.wire r).2.headerFor? ((d.wire r).1.afterActions r actions) r cluster =
      ((d.wire r).1.afterActions r actions).anchors.find? fun link =>
        ((d.wire r).1.afterActions r actions).headerCluster? r (d.wire r).2 link = some cluster := by
  have hbare := (retouched_afterActions r actions (d.wire r).1).bare
  refine (clickable_clusters ?_).first cluster
  rw [anchors_eq hbare]
  exact headers_eq_filter_role d r

/-- Document order is the order in which a drawing is written.  In a drawing whose lists of
children form a forest, every walk and every search goes by it; so does the lookup of the header
of a cluster, once the drawing is wired, whatever is then clicked, shown or hidden. -/
theorem searches_follow_text (hd : d.ChildForest) :
    d.InWrittenOrder ∧ ∀ (r : FoldRules) (actions : List FoldAction) (cluster : String),
      let w := (d.wire r).2
      let later := (d.wire r).1.afterActions r actions
      later.InWrittenOrder ∧ w.headerFor? later r cluster =
        (opened (later.pieces later.root)).find? fun id =>
          later.isNamed "a" id && later.headerCluster? r w id = some cluster := by
  refine ⟨hd.inWrittenOrder, fun r actions cluster => ?_⟩
  intro w later
  -- Neither wiring nor clicks change which node hangs below which.
  have hbare : later.bare = d.bare :=
    (retouched_afterActions r actions (d.wire r).1).bare.trans (bare_wire d r)
  have hlater := (hd.of_skeleton_eq (skeleton_eq_of_bare_eq hbare)).inWrittenOrder
  refine ⟨hlater, ?_⟩
  rw [headerFor?_afterActions, hlater.anchors, List.find?_filter]
  simp only [Bool.decide_and, Bool.decide_eq_true]
  rfl

/-! ### A drawing whose table is in no order -/

/-- A drawing whose children all have a lower rank than what they hang below. -/
theorem childForest_of_rank (rank : NodeId → Nat)
    (hrank : ∀ id < d.nodes.size, ∀ c ∈ d.children id, rank c < rank id ∧ c < d.nodes.size)
    (hnodup : ∀ id < d.nodes.size, (d.children id).Nodup)
    (hunique : ∀ a < d.nodes.size, ∀ b < d.nodes.size, ∀ c ∈ d.children a, c ∈ d.children b → a = b)
    (helements : ∀ id < d.nodes.size, d.children id ≠ [] → d.isElement id = true) :
    d.ChildForest where
  acyclic := by
    refine Subrelation.wf ?_ (measure rank).wf
    intro c id hc
    exact (hrank id (lt_of_mem_children hc) c hc).1
  valid id c hc := (hrank id (lt_of_mem_children hc) c hc).2
  nodup id := by
    by_cases hid : id < d.nodes.size
    · exact hnodup id hid
    · rw [children_eq_nil_of_size_le (Nat.le_of_not_lt hid)]
      exact List.nodup_nil
  unique ha hb := hunique _ (lt_of_mem_children ha) _ (lt_of_mem_children hb) _ ha hb
  elements id hne := by
    obtain ⟨c, more, hlist⟩ := List.exists_cons_of_ne_nil hne
    exact helements id (lt_of_mem_children (hlist ▸ List.mem_cons_self)) hne

/-- A drawing whose root lies in the middle of the table, and whose links upwards are missing. -/
def scattered : Drawing where
  nodes := #[⟨.element ⟨"a", [], [("href", "m"), ("target", "t")]⟩, none, [1]⟩,
    ⟨.text "x < y", none, []⟩,
    ⟨.element ⟨"svg", [], []⟩, none, [4, 0]⟩,
    ⟨.element ⟨"a", [], [("href", "m"), ("target", "u")]⟩, none, []⟩,
    ⟨.element ⟨"g", [], []⟩, none, [3, 5]⟩,
    ⟨.comment "c", none, []⟩]
  root := 2
  prologue := []
  epilogue := []

theorem childForest_scattered : scattered.ChildForest :=
  childForest_of_rank (fun id => [1, 0, 3, 0, 2, 0].getD id 0) (by decide) (by decide) (by decide)
    (by decide)

theorem searches_follow_text_scattered : scattered.ChildForest ∧
    scattered.text = header ++ "<svg><g><a href=\"m\" target=\"u\"/><!--c--></g>" ++
      "<a href=\"m\" target=\"t\">x &lt; y</a></svg>\n" ∧
    scattered.Yields [2] [2, 4, 3, 5, 0, 1] ∧ scattered.anchors = [3, 0] ∧
    scattered.textOf 2 = "x < y" ∧
    (scattered.wire {}).2.headerFor? ((scattered.wire {}).1.afterActions {}
      [.click (scattered.wire {}).2 0]) {} "m" = some 3 := by
  obtain ⟨h, hlater⟩ := searches_follow_text childForest_scattered
  have hheader := (hlater {} [.click (scattered.wire {}).2 0] "m").2
  have hwalk : scattered.descendants 2 = [2, 4, 3, 5, 0, 1] :=
    (h.order (by decide)).trans (by decide +kernel)
  refine ⟨childForest_scattered, ?_, hwalk ▸ h.ends 2, h.anchors.trans (by decide +kernel),
    (h.textOf 2).trans (by decide +kernel), hheader.trans (by decide +kernel)⟩
  exact h.text.trans (by decide +kernel)

end Drawing
end GraphFolding
