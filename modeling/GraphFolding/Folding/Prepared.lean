/-
Prepared drawings: wired, and with the stylesheet and a script added to the first `svg`
element.

* `stylesheet` — the rules for highlighted and for hidden elements;
* `Drawing.prepare` — the prepared drawing; neither a style nor a script is added twice.
-/
import GraphFolding.Folding.Wiring
namespace GraphFolding

/-- Further rules, closed by a line feed. -/
def closedLine (css : String) : String :=
  if css.toList.getLast? = some '\n' then css else css ++ "\n"

/-- The stylesheet of prepared drawings. -/
def stylesheet (r : FoldRules) (s : StyleRules) : String :=
  ".node-highlight \x7b stroke: " ++ s.highlightStroke ++ "; opacity: 1;\x7d\n." ++
    r.hiddenClass ++ " \x7b display: none;\x7d\n" ++ (s.extraCss.map closedLine).getD ""

/-- What to add to a prepared drawing. -/
structure PrepareOptions where
  /-- Whether the stylesheet is added. -/
  inlineStyle : Bool := false
  /-- The script to refer to. -/
  scriptHref : Option String := none
  deriving DecidableEq, Repr

namespace Drawing

/-- The namespace of links. -/
def xlinkUri : String := "http://www.w3.org/1999/xlink"

/-- Whether the drawing has a style with this text. -/
def hasStyle (d : Drawing) (css : String) : Bool :=
  (d.elementsNamed "style").any fun style => d.textOf style = css

/-- The stylesheet as the first child of an element, unless the drawing has it already. -/
def injectStyle (d : Drawing) (svg : NodeId) (css : String) : Drawing :=
  if d.hasStyle css then d
  else
    let (d, style) := d.createElement "style" [("type", "text/css")]
    (d.appendText style css).insertChild svg 0 style

/-- Whether the drawing has a script with this reference. -/
def hasScript (d : Drawing) (href : String) : Bool :=
  (d.elementsNamed "script").any fun script => d.attribute? script "xlink:href" = some href

/-- A script reference as the last child of an element, unless the drawing has it already. -/
def injectScript (d : Drawing) (svg : NodeId) (href : String) : Drawing :=
  let d := d.ensureNamespace "xlink" xlinkUri
  if d.hasScript href then d
  else
    let (d, script) :=
      d.createElement "script" [("xlink:href", href), ("type", "text/javascript")]
    d.appendChild svg script

/-- The prepared drawing and its wiring; a drawing without an `svg` element has none. -/
def prepare (d : Drawing) (r : FoldRules) (s : StyleRules) (options : PrepareOptions) :
    Option (Drawing × Wiring) :=
  d.svgRoot?.map fun svg =>
    let (d, w) := d.wire r
    let d := if options.inlineStyle then d.injectStyle svg (stylesheet r s) else d
    let d := match options.scriptHref with
      | some href => d.injectScript svg href
      | none => d
    (d, w)

end Drawing
end GraphFolding
