/-
The wiring of a drawing: which links react to clicks, and which edges stand in for folded
clusters.

* `Drawing.wire` — every link is given its cluster and sorted, and the placeholder edges
  are hidden, so that every cluster starts unfolded;
* `Wiring.role`, `Wiring.headerFor?`, `Wiring.clusters` — what a wiring knows.
-/
import GraphFolding.Drawing.Edit
import GraphFolding.Drawing.Traversal
import GraphFolding.Settings.Basic
namespace GraphFolding

/-- What a link is for. -/
inductive LinkRole where
  /-- A click folds or unfolds the cluster of the link. -/
  | header
  /-- Clicks are swallowed. -/
  | silent
  deriving DecidableEq, Repr

/-- The links of a drawing by their roles, and the containers of the placeholder edges. -/
structure Wiring where
  headers : List NodeId := []
  silent : List NodeId := []
  placeholders : List NodeId := []
  deriving DecidableEq, Repr

namespace Wiring

/-- The role of a link. -/
def role (w : Wiring) (link : NodeId) : Option LinkRole :=
  if w.headers.contains link then some .header
  else if w.silent.contains link then some .silent
  else none

/-- The first header of a cluster. -/
def headerFor? (w : Wiring) (d : Drawing) (r : FoldRules) (cluster : String) : Option NodeId :=
  w.headers.find? fun link => d.attribute? link r.clusterAttribute = some cluster

/-- The clusters of all headers, each once. -/
def clusters (w : Wiring) (d : Drawing) (r : FoldRules) : List String :=
  (w.headers.filterMap (d.attribute? · r.clusterAttribute)).eraseDups

/-- A link sorted by whether it has a target; links of placeholder edges are noted too. -/
def addLink (w : Wiring) (link : NodeId) (isHeader isPlaceholder : Bool) : Wiring where
  headers := if isHeader then w.headers ++ [link] else w.headers
  silent := if isHeader then w.silent else w.silent ++ [link]
  placeholders := if isPlaceholder then w.placeholders ++ [link] else w.placeholders

end Wiring

namespace Drawing

/-- The cluster that a link refers to. -/
def reference? (d : Drawing) (r : FoldRules) (link : NodeId) : Option String :=
  r.hrefAttributes.findSome? (d.attribute? link ·)

/-- A link given its cluster. -/
def stampLink (d : Drawing) (r : FoldRules) (link : NodeId) : Drawing :=
  match d.reference? r link with
  | some cluster => d.setAttribute link r.clusterAttribute cluster
  | none => d

/-- A link given its cluster and sorted. -/
def wireLink (r : FoldRules) (state : Drawing × Wiring) (link : NodeId) : Drawing × Wiring :=
  let (d, w) := state
  let isPlaceholder := (d.reference? r link).any r.isPlaceholder
  let d := d.stampLink r link
  (d, w.addLink link (d.attribute? link r.targetAttribute).isSome isPlaceholder)

/-- A drawing with its links wired and its placeholder edges hidden. -/
def wire (d : Drawing) (r : FoldRules) : Drawing × Wiring :=
  let (d, w) := d.anchors.foldl (wireLink r) (d, {})
  let containers := w.placeholders.filterMap (d.ancestor? · r.containerDepth)
  (containers.foldl (fun d id => d.setClass id r.hiddenClass true) d,
    { w with placeholders := containers })

end Drawing
end GraphFolding
