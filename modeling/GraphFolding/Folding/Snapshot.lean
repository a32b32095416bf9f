/-
Snapshots: a drawing prepared with its stylesheet, and then clicked by the names of
clusters.

* `Snapshot.clickNamed` — a click on the first header of a cluster;
* `snapshot` — the drawing after a list of such clicks, and the clusters without a header.
-/
import GraphFolding.Folding.Click
import GraphFolding.Folding.Prepared
import GraphFolding.Drawing.OfDocument
import GraphFolding.Drawing.Writer
namespace GraphFolding

/-- A drawing that is being clicked: what the clicks did so far, and the clusters named
that have no header. -/
structure Snapshot where
  drawing : Drawing
  wiring : Wiring
  clicks : List (String × ClickOutcome) := []
  unknown : List String := []

namespace Snapshot

/-- A click on the first header of a cluster. -/
def clickNamed (r : FoldRules) (s : Snapshot) (cluster : String) : Snapshot :=
  match s.wiring.headerFor? s.drawing r cluster with
  | some header =>
    let (drawing, outcome) := s.drawing.click r s.wiring header
    { s with drawing, clicks := s.clicks ++ [(cluster, outcome)] }
  | none => { s with unknown := s.unknown ++ [cluster] }

/-- Clicks one after the other. -/
def clickAll (r : FoldRules) (s : Snapshot) (clusters : List String) : Snapshot :=
  clusters.foldl (clickNamed r) s

/-- The start of a snapshot: the drawing prepared with its stylesheet. -/
def start (source : String) (settings : Settings) : Except ReadError Snapshot := do
  let drawing ← Drawing.ofString source
  match drawing.prepare settings.fold settings.style ⟨true, none⟩ with
  | some (drawing, wiring) => return { drawing, wiring }
  | none => throw .noSvg

end Snapshot

/-- The drawing that a text holds, prepared and clicked. -/
def snapshot (source : String) (settings : Settings) (clusters : List String) :
    Except ReadError Snapshot := do
  return (← Snapshot.start source settings).clickAll settings.fold clusters

end GraphFolding
