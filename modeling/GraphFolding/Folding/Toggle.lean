/-
Showing and hiding one cluster.

* `Drawing.clusterMembers`, `Drawing.clusterFrame?` — the containers of the links of a
  cluster, and the frame drawn around it;
* `Drawing.setVisibility` — a cluster shown or hidden.

A cluster hidden by a click keeps the clicked container, marked as collapsed, and its
placeholder edges in sight.  A cluster hidden because an outer one was clicked disappears
altogether.
-/
import GraphFolding.Drawing.Edit
import GraphFolding.Drawing.Traversal
import GraphFolding.Settings.Basic
namespace GraphFolding

/-- What a call that shows or hides a cluster did. -/
structure Toggle where
  cluster : String
  visible : Bool
  triggered : Bool
  members : Nat
  placeholders : Nat
  deriving DecidableEq, Repr

namespace Drawing

/-- The containers of the links whose cluster is the given one. -/
def clusterMembers (d : Drawing) (r : FoldRules) (cluster : String) : List NodeId :=
  (d.anchors.filter fun link => d.attribute? link r.clusterAttribute = some cluster).filterMap
    (d.ancestor? · r.containerDepth)

/-- The first frame that has the title of a cluster. -/
def clusterFrame? (d : Drawing) (r : FoldRules) (cluster : String) : Option NodeId :=
  (d.elementsWithClass r.frameClass).find? fun frame =>
    d.descendantText? frame "title" = some (r.frameTitle cluster)

/-- One container shown or hidden; the trigger is marked as collapsed instead. -/
def toggleElement (d : Drawing) (r : FoldRules) (trigger : Option NodeId) (visible : Bool)
    (id : NodeId) : Drawing :=
  if trigger = some id then d.setClass id r.collapsedClass !visible
  else d.setClass id r.hiddenClass !visible

/-- Several containers shown or hidden, one after the other. -/
def toggleElements (d : Drawing) (r : FoldRules) (trigger : Option NodeId) (visible : Bool)
    (ids : List NodeId) : Drawing :=
  ids.foldl (fun d id => d.toggleElement r trigger visible id) d

/-- The frame of a cluster shown or hidden, if there is one. -/
def toggleFrame (d : Drawing) (r : FoldRules) (cluster : String) (visible : Bool) : Drawing :=
  match d.clusterFrame? r cluster with
  | some frame => d.setClass frame r.hiddenClass !visible
  | none => d

/-- A cluster shown or hidden: its frame, then its members, then its placeholder edges,
which are in sight only while the cluster is folded into a trigger. -/
def setVisibility (d : Drawing) (r : FoldRules) (cluster : String) (trigger : Option NodeId)
    (visible : Bool) : Drawing × Toggle :=
  let members := d.clusterMembers r cluster
  let d := (d.toggleFrame r cluster visible).toggleElements r trigger visible members
  let placeholders := d.clusterMembers r (r.placeholderFor cluster)
  (d.toggleElements r none (trigger.isSome && !visible) placeholders,
    ⟨cluster, visible, trigger.isSome, members.length, placeholders.length⟩)

end Drawing
end GraphFolding
