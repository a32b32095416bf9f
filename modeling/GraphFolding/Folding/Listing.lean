/-
Listings of the clusters that can be clicked.

* `listing` — one line for each cluster, indented by its depth, with the numbers of its
  members and of its placeholder edges.
-/
import GraphFolding.Folding.Toggle
import GraphFolding.Folding.Wiring
namespace GraphFolding

/-- One line of a listing: a cluster, and how many members and placeholder edges it has. -/
def listingLine (d : Drawing) (r : FoldRules) (cluster : String) : String :=
  String.join (List.replicate (ClusterPath.depth cluster r.separator) "  ") ++ cluster ++
    "\tmembers=" ++ toString (d.clusterMembers r cluster).length ++
    "\tplaceholders=" ++ toString (d.clusterMembers r (r.placeholderFor cluster)).length ++ "\n"

/-- The clusters of a wired drawing that can be clicked, one line each. -/
def listing (d : Drawing) (w : Wiring) (r : FoldRules) : String :=
  String.join ((w.clusters d r).map (listingLine d r))

end GraphFolding
