/-
Pictures of drawings, as far as they do not depend on how a drawing is painted.

* `Renderer` — what lays drawings out and paints them, of which nothing is known;
* `Renderer.draw` — what a renderer makes of a drawing on a canvas: the size of the canvas is
  looked at before the drawing is laid out, and the colour of its background after that;
* `Picture` — a picture of a single pixel over and over.
-/
import GraphFolding.Colour
import GraphFolding.Drawing.Traversal
import GraphFolding.Settings.Basic
namespace GraphFolding

/-- Why there is no picture, the errors of a renderer apart. -/
inductive PictureError where
  | invalidSize
  | fault (f : ColourFault)
  deriving DecidableEq, Repr

/-- A pixel: three channels and the opacity. -/
structure Pixel where
  red : UInt8
  green : UInt8
  blue : UInt8
  alpha : UInt8
  deriving DecidableEq, Repr

/-- The pixel of a colour. -/
def Colour.pixel (c : Colour) : Pixel := ⟨c.red, c.green, c.blue, 255⟩

/-- A renderer.  It lays a drawing out for a width and a height and makes a clear picture for it;
it then fills the picture with a pixel, or leaves it clear, and paints the drawing on it.  Either
may fail. -/
def Renderer (ε α : Type) : Type :=
  Drawing → Binary → Binary → Except ε (Option Pixel → Except ε α)

namespace Renderer

/-- What a renderer makes of a drawing on a canvas, whose size has to be one. -/
def draw {ε α : Type} (render : Renderer ε α) (fail : PictureError → ε) (d : Drawing)
    (canvas : Canvas) : Except ε α := do
  if !(canvas.width.isPositiveFinite && canvas.height.isPositiveFinite) then
    throw (fail .invalidSize)
  let paint ← render d canvas.width canvas.height
  let background ← (Colour.ofString canvas.background).mapError fun f => fail (.fault f)
  paint (background.map Colour.pixel)

end Renderer

/-- A picture whose pixels are all the same, or clear. -/
structure Picture where
  width : Nat
  height : Nat
  background : Option Pixel
  deriving DecidableEq, Repr

namespace Picture

/-- The pixel without any colour. -/
def clear : Pixel := ⟨0, 0, 0, 0⟩

/-- Every pixel of a picture. -/
def pixel (p : Picture) : Pixel := p.background.getD clear

end Picture
end GraphFolding
