/-
Settings: the names and markers that folding reads from a drawing, the look of the
stylesheet, and the canvas of a picture.

* `FoldRules`, `StyleRules`, `Canvas` — the three groups, each with its defaults;
* `FoldRules.check` — the rules that folding can work with.
-/
import GraphFolding.ClusterPath
import GraphFolding.Number.Binary
namespace GraphFolding

/-- The names and markers that folding reads from a drawing. -/
structure FoldRules where
  /-- The class word of what is hidden. -/
  hiddenClass : String := "hide"
  /-- The class word of the node that a folded cluster is folded into. -/
  collapsedClass : String := "collapsed"
  /-- The attribute of a link that holds its cluster. -/
  clusterAttribute : String := "cluster"
  /-- The attribute that makes a link a header. -/
  targetAttribute : String := "target"
  /-- The attributes that may hold the cluster of a link, the first one present counting. -/
  hrefAttributes : List String := ["xlink:href", "href"]
  /-- The class word of the frames around clusters. -/
  frameClass : String := "cluster"
  /-- What stands before the last segment of a cluster in the title of its frame. -/
  frameTitlePrefix : String := "cluster_"
  /-- What stands before a cluster in the reference of its placeholder edges. -/
  placeholderPrefix : String := "not_"
  /-- What parts the segments of a cluster. -/
  separator : String := "."
  /-- How many levels above a link its container is. -/
  containerDepth : Nat := 2
  nesting : Nesting := .bySegment
  deriving DecidableEq, Repr

/-- The look of the stylesheet. -/
structure StyleRules where
  highlightStroke : String := "blue"
  extraCss : Option String := none
  deriving DecidableEq, Repr

/-- The canvas of a picture: the size it has if the drawing states none, and its colour. -/
structure Canvas where
  width : Binary := Format.single.ofNat 1200
  height : Binary := Format.single.ofNat 800
  background : String := "#FFFFFF"
  deriving DecidableEq, Repr

/-- All settings. -/
structure Settings where
  fold : FoldRules := {}
  style : StyleRules := {}
  canvas : Canvas := {}
  deriving DecidableEq, Repr

namespace FoldRules

/-- The reference that the placeholder edges of a cluster have. -/
def placeholderFor (r : FoldRules) (cluster : String) : String := r.placeholderPrefix ++ cluster

/-- Whether a reference is one of placeholder edges. -/
def isPlaceholder (r : FoldRules) (reference : String) : Bool :=
  r.placeholderPrefix.toList.isPrefixOf reference.toList

/-- The title of the frame around a cluster. -/
def frameTitle (r : FoldRules) (cluster : String) : String :=
  r.frameTitlePrefix ++ ClusterPath.lastSegment cluster r.separator

/-- Whether a cluster lies strictly inside another one. -/
def isBelow (r : FoldRules) (cluster ancestor : String) : Bool :=
  ClusterPath.isBelow r.nesting r.separator cluster ancestor

/-- Whether folding can work with the rules: the separator is not empty. -/
def check (r : FoldRules) : Bool := !r.separator.isEmpty

end FoldRules
end GraphFolding
