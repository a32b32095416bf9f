/-
Clicks on links.

* `ClickOutcome` — what a click did, the clusters inside the clicked one first;
* `Drawing.click` — a click on any link: on a header it folds or unfolds the cluster and
  every cluster below it, elsewhere it does nothing.
-/
import GraphFolding.Folding.Toggle
import GraphFolding.Folding.Wiring
namespace GraphFolding

/-- What a click did: the clusters shown or hidden, the clicked one last, and whether it
unfolded. -/
structure ClickOutcome where
  toggles : List Toggle := []
  expanded : Option Bool := none
  deriving DecidableEq, Repr

/-- The clusters shown or hidden. -/
def ClickOutcome.toggled (o : ClickOutcome) : List String := o.toggles.map (·.cluster)

namespace Drawing

/-- The cluster of one header shown or hidden if it lies below the clicked one. -/
def cascadeHeader (r : FoldRules) (cluster : String) (visible : Bool)
    (state : Drawing × List Toggle) (header : NodeId) : Drawing × List Toggle :=
  match state.1.attribute? header r.clusterAttribute with
  | none => state
  | some sub =>
    if r.isBelow sub cluster then
      let (d, toggle) := state.1.setVisibility r sub none visible
      (d, state.2 ++ [toggle])
    else state

/-- The clusters of all headers that lie below a cluster shown or hidden, in the order of
the headers. -/
def cascade (d : Drawing) (r : FoldRules) (headers : List NodeId) (cluster : String)
    (visible : Bool) : Drawing × List Toggle :=
  headers.foldl (cascadeHeader r cluster visible) (d, [])

/-- A click on a header: its cluster is unfolded if its container is marked as collapsed,
and folded otherwise. -/
def clickHeader (d : Drawing) (r : FoldRules) (headers : List NodeId) (link : NodeId) :
    Drawing × ClickOutcome :=
  match d.attribute? link r.clusterAttribute, d.ancestor? link r.containerDepth with
  | some cluster, some container =>
    let visible := d.hasClass container r.collapsedClass
    let (d, toggles) := d.cascade r headers cluster visible
    let (d, toggle) := d.setVisibility r cluster (some container) visible
    (d, ⟨toggles ++ [toggle], some visible⟩)
  | _, _ => (d, {})

/-- A click on a link. -/
def click (d : Drawing) (r : FoldRules) (w : Wiring) (link : NodeId) : Drawing × ClickOutcome :=
  match w.role link with
  | some .header => d.clickHeader r w.headers link
  | _ => (d, {})

end Drawing
end GraphFolding
