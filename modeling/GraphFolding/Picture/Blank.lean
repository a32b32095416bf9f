/-
Pictures of drawings that show nothing but their background.

How a drawing is painted is up to a renderer.  The one here stands in for it where nothing is to be
painted: it reads off a drawing the size that is written in it, as a decimal, and nothing else.

* `Renderer.blank` — this renderer;
* `Picture.ofDrawing` — what it makes of a drawing on a canvas.
-/
import GraphFolding.Number.Decimal
import GraphFolding.Picture.Basic
namespace GraphFolding

namespace Picture

/-- The length that an attribute of a drawing states, or that of the canvas. -/
def lengthOf (d : Drawing) (name : String) (canvas : Binary) : Binary :=
  match ((d.attribute? d.root name).bind Decimal.ofString?).map (Decimal.toBinary .single) with
  | some x => x
  | none => canvas

/-- The picture of a drawing that shows nothing. -/
def blank (d : Drawing) (width height : Binary) (background : Option Pixel) : Picture where
  width := (lengthOf d "width" width).ceilAtLeast 1
  height := (lengthOf d "height" height).ceilAtLeast 1
  background := background

end Picture

/-- The renderer for drawings that show nothing. -/
def Renderer.blank {ε : Type} : Renderer ε Picture := fun d width height =>
  .ok fun background => .ok (Picture.blank d width height background)

/-- The picture of a drawing that shows nothing, on a canvas. -/
def Picture.ofDrawing (d : Drawing) (canvas : Canvas) : Except PictureError Picture :=
  Renderer.blank.draw id d canvas

end GraphFolding
