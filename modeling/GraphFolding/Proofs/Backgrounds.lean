/-
Backgrounds of canvases.

A drawing is painted on what the background of its canvas stands for.  Any text can be written into
a settings file as a background, also one whose channels cannot be cut.  What is said here holds for
every renderer:

* `Renderer.draw_of_not_size`, `Renderer.draw_of_error`, `Renderer.draw_of_ok` — drawing, as far as
  it comes;
* `Colour.isExact_iff` — backgrounds are read as six digits are meant to be, but for plus signs, and
  pictures are filled with the colour that was read, or left clear; `not_forall_isExact` has such a
  sign;
* `Settings.exists_ofFile_background` — every text is the background of a file;
* `Renderer.faults_iff` — when drawing faults, and files that lead to it; `not_forall_not_faults` has
  one.
-/
import GraphFolding.Drawing.OfDocument
import GraphFolding.Picture.Blank
import GraphFolding.Proofs.ColourGrammar
import GraphFolding.Proofs.Reading
import GraphFolding.Proofs.SettingsReading
namespace GraphFolding

open Json

/-! ### Drawing -/

/-- Whether a canvas has a size: two lengths that are positive and finite. -/
def Canvas.HasSize (canvas : Canvas) : Prop :=
  canvas.width.isPositiveFinite = true ∧ canvas.height.isPositiveFinite = true

theorem Canvas.hasSize_default (background : String) :
    ({ background := background } : Canvas).HasSize := by
  have hsize : ({} : Canvas).width.isPositiveFinite = true ∧
      ({} : Canvas).height.isPositiveFinite = true := by decide +kernel
  exact hsize

namespace Renderer

variable {ε α : Type} (render : Renderer ε α) (fail : PictureError → ε) (d : Drawing)
  {canvas : Canvas}

/-- The size is looked at first. -/
theorem draw_of_not_size (h : ¬canvas.HasSize) :
    render.draw fail d canvas = .error (fail .invalidSize) := by
  have hsize : (canvas.width.isPositiveFinite && canvas.height.isPositiveFinite) = false := by
    rw [← Bool.not_eq_true, Bool.and_eq_true]
    exact h
  rw [draw, hsize]
  rfl

/-- What cannot be laid out is not drawn, whatever its background is. -/
theorem draw_of_error (hsize : canvas.HasSize) {e : ε}
    (h : render d canvas.width canvas.height = .error e) :
    render.draw fail d canvas = .error e := by
  rw [draw, hsize.1, hsize.2, h]
  rfl

/-- What is laid out is painted on the background. -/
theorem draw_of_ok (hsize : canvas.HasSize) {paint : Option Pixel → Except ε α}
    (h : render d canvas.width canvas.height = .ok paint) : render.draw fail d canvas =
      match Colour.ofString canvas.background with
      | .ok background => paint (background.map Colour.pixel)
      | .error f => .error (fail (.fault f)) := by
  rw [draw, hsize.1, hsize.2, h]
  rcases Colour.ofString canvas.background with f | background
  · rfl
  · rfl

end Renderer

namespace Drawing

/-- A drawing that shows nothing. -/
def unpainted : Drawing where
  nodes := #[⟨.element ⟨"svg", [⟨none, "http://www.w3.org/2000/svg"⟩],
    [("width", "3"), ("height", "2")]⟩, none, []⟩]
  root := 0
  prologue := []
  epilogue := []

/-- The drawing as text. -/
def unpaintedText : String :=
  "<svg xmlns=\"http://www.w3.org/2000/svg\" width=\"3\" height=\"2\"/>"

theorem ofString_unpainted : ofString unpaintedText = .ok unpainted :=
  eq_ok_of_toOption (by decide +kernel)

/-- Its size is the one that is written in it, whatever the canvas is. -/
theorem blank_unpainted (width height : Binary) (background : Option Pixel) :
    Picture.blank unpainted width height background = ⟨3, 2, background⟩ := by
  have hwidth : (Picture.lengthOf unpainted "width" width).ceilAtLeast 1 = 3 := rfl
  have hheight : (Picture.lengthOf unpainted "height" height).ceilAtLeast 1 = 2 := rfl
  rw [Picture.blank, hwidth, hheight]

end Drawing

/-! ### Colours of backgrounds -/

namespace Colour

/-- How backgrounds are read.  Take a text none of whose channels would end inside a character.  It
is read as six digits are meant to be, except where it is a hash sign and three channels one of
which is a plus sign and a digit.  Whatever the renderer is, a drawing that it has laid out is
painted on a picture filled with the colour of the channels, without any transparency, and on one
left clear if the text has no channels for that. -/
theorem isExact_iff {text : String} (hcut : ∀ f, ofString text ≠ .error f) :
    (IsExact text ↔ ¬∃ colour, Spells IsChannel text colour ∧ '+' ∈ text.toList) ∧
      ∀ {ε α : Type} (render : Renderer ε α) (fail : PictureError → ε) (d : Drawing)
        (canvas : Canvas) (paint : Option Pixel → Except ε α), canvas.background = text →
        canvas.HasSize → render d canvas.width canvas.height = .ok paint →
          (∀ colour, Spells IsChannel text colour → render.draw fail d canvas =
            paint (some ⟨colour.red, colour.green, colour.blue, 255⟩)) ∧
          ((∀ colour, ¬Spells IsChannel text colour) →
            render.draw fail d canvas = paint none) := by
  have hnone : (∀ colour, ¬Spells IsChannel text colour) → ofString text = .ok none := fun hno =>
    ofString_eq_none_iff.mpr ⟨hcut, hno⟩
  refine ⟨⟨?_, ?_⟩, ?_⟩
  · rintro ⟨hexact, -⟩ ⟨colour, hspells, hplus⟩
    exact (spells_isPair_iff.mp ((hexact colour).mp (ofString_eq_some_iff.mpr hspells))).2 hplus
  · intro hplus
    have hsame : ∀ colour, Spells IsChannel text colour ↔ Spells IsPair text colour := by
      intro colour
      rw [spells_isPair_iff]
      exact ⟨fun h => ⟨h, fun hmem => hplus ⟨colour, h, hmem⟩⟩, And.left⟩
    refine ⟨fun colour => ofString_eq_some_iff.trans (hsame colour), fun hno => ?_⟩
    exact hnone fun colour h => hno colour ((hsame colour).mp h)
  · rintro ε α render fail d canvas paint rfl hsize hlaid
    rw [render.draw_of_ok fail d hsize hlaid]
    refine ⟨fun colour hspells => ?_, fun hno => ?_⟩
    · rw [ofString_eq_some_iff.mpr hspells]
      rfl
    · rw [hnone hno]
      rfl

/-- A character of two bytes in the place of a channel does no harm: there is no colour then. -/
theorem isExact_accented : (∀ f, ofString "#12é34" ≠ .error f) ∧ IsExact "#12é34" ∧
    Drawing.ofString Drawing.unpaintedText = .ok .unpainted ∧
    Picture.ofDrawing .unpainted { background := "#12é34" } = .ok ⟨3, 2, none⟩ ∧
    Picture.ofDrawing .unpainted { background := "#8aC0Ff" } =
      .ok ⟨3, 2, some ⟨138, 192, 255, 255⟩⟩ := by
  have hnone : ofString "#12é34" = .ok none := by decide
  obtain ⟨hcut, hno⟩ := ofString_eq_none_iff.mp hnone
  have hsix : ofString "#8aC0Ff" = .ok (some ⟨138, 192, 255⟩) := by decide
  have hcut' : ∀ f, ofString "#8aC0Ff" ≠ .error f := fun f => by simp [hsix]
  obtain ⟨hexact, hpaints⟩ := isExact_iff hcut
  have hclear := (hpaints Renderer.blank id .unpainted _ _ rfl (Canvas.hasSize_default _) rfl).2 hno
  have hfilled := ((isExact_iff hcut').2 Renderer.blank id .unpainted _ _ rfl
    (Canvas.hasSize_default _) rfl).1 _ (ofString_eq_some_iff.mp hsix)
  rw [Drawing.blank_unpainted] at hclear hfilled
  refine ⟨hcut, hexact.mpr ?_, Drawing.ofString_unpainted, hclear, hfilled⟩
  rintro ⟨colour, hspells, -⟩
  exact hno colour hspells

/-- A text with signs in it is no six digits, and stands for a colour. -/
theorem not_forall_isExact :
    ¬∀ text, (∀ f, ofString text ≠ .error f) → IsExact text := by
  intro hall
  have hread : ofString "#+F+F+F" = .ok (some ⟨15, 15, 15⟩) := by decide
  have hexact := (hall "#+F+F+F" fun f h => by simp [hread] at h).1 ⟨15, 15, 15⟩
  exact (spells_isPair_iff.mp (hexact.mp hread)).2 (by decide)

end Colour

/-! ### Backgrounds of files -/

namespace Settings

/-- The members of a settings file that state a background. -/
def backgroundMembers (background : String) : List Member :=
  [(units "render", .object [(units "background", .text (units background))])]

theorem ofTrees?_backgroundMembers (background : String) :
    ofTrees? (backgroundMembers background) = some { canvas := { background := background } } := by
  have hchange : Canvas.fields.change? CanvasKey.value? .background
      (.text (units background)) = some fun c => { c with background := background } := by
    show (textOf? (units background)).map _ = _
    rw [textOf?_units]
    rfl
  have hcanvas : Canvas.ofTree? (.object [(units "background", .text (units background))]) =
      some { background := background } := by
    show Canvas.group.applyMembers? _ [] _ _ = _
    have hkey : Canvas.group.key? "background" = some .background := rfl
    simp only [Group.applyMembers?, textOf?_units, Option.bind_some, hkey, List.contains_nil,
      Bool.false_eq_true, if_false, hchange]
    rfl
  have hname : "render" ≠ "style" := by decide
  simp only [ofTrees?, backgroundMembers, Members.addTrees?, textOf?_units, Option.bind_some,
    Members.addTree?, if_neg hname, if_pos, Option.isSome_none, Bool.false_eq_true, if_false,
    hcanvas, Option.map_some]
  rfl

/-- Every text is the background that some settings file states, with nothing else. -/
theorem exists_ofFile_background (background : String) : ∃ bytes,
    ofFile "canvas.json" (.ok bytes) = .ok { canvas := { background := background } } := by
  have hinner := written_members_cons true (quoted_units "render" (by decide +kernel))
    (.object (written_members_cons true
      (quoted_units "background" (by decide +kernel))
      (.text (quoted_escaped (units background))) (written_members_nil false)))
    (written_members_nil false)
  have htext := isObject_of_written hinner String.toList_ofList
  exact ⟨_, (ofFile_eq_ok_iff (by decide) (decodeText_toUTF8 _) htext).mpr
    ⟨ofTrees?_backgroundMembers background, rfl⟩⟩

end Settings

/-! ### Faults -/

namespace Renderer

section Errors

variable {ε ε' α : Type} {render : Renderer ε α} {d : Drawing} {width height : Binary}

/-- The renderer with other errors. -/
def mapError (f : ε → ε') (render : Renderer ε α) : Renderer ε' α := fun d width height =>
  ((render d width height).map fun paint background => (paint background).mapError f).mapError f

theorem mapError_of_error (f : ε → ε') {e : ε} (h : render d width height = .error e) :
    render.mapError f d width height = .error (f e) := by
  rw [mapError, h]
  rfl

theorem mapError_of_ok (f : ε → ε') {paint : Option Pixel → Except ε α}
    (h : render d width height = .ok paint) : render.mapError f d width height =
      .ok fun background => (paint background).mapError f := by
  rw [mapError, h]
  rfl

end Errors

/-- Whether drawing faults.  The errors of the renderer are no faults of drawing. -/
def Faults {ε α : Type} (render : Renderer ε α) (d : Drawing) (canvas : Canvas) : Prop :=
  ∃ f, (render.mapError Sum.inr).draw Sum.inl d canvas = .error (.inl (.fault f))

variable {ε α : Type} (render : Renderer ε α) (d : Drawing) (canvas : Canvas)

/-- When drawing faults.  There is a fault exactly where the canvas has a size, the drawing has been
laid out, and a channel of the background would end inside a character; and some settings file with
this background is accepted, with a canvas that has a size. -/
theorem faults_iff :
    (render.Faults d canvas ↔ canvas.HasSize ∧
      (∃ paint, render d canvas.width canvas.height = .ok paint) ∧
      Colour.Cuts canvas.background) ∧
    ∃ bytes s, Settings.ofFile "canvas.json" (.ok bytes) = .ok s ∧ s.canvas.HasSize ∧
      s.canvas.background = canvas.background := by
  -- What goes wrong in painting is an error of the renderer, as it is in laying out.
  have hpainted : ∀ (x : Except ε α) f,
      x.mapError Sum.inr ≠ .error (Sum.inl (PictureError.fault f)) := by
    rintro (e | picture) f h
    · cases h
    · cases h
  refine ⟨⟨?_, ?_⟩, ?_⟩
  · rintro ⟨f, hf⟩
    by_cases hsize : canvas.HasSize
    · rcases hlaid : render d canvas.width canvas.height with e | paint
      · rw [draw_of_error _ _ d hsize (mapError_of_error Sum.inr hlaid)] at hf
        cases hf
      · rw [draw_of_ok _ _ d hsize (mapError_of_ok Sum.inr hlaid)] at hf
        rcases hread : Colour.ofString canvas.background with f' | found
        · exact ⟨hsize, ⟨paint, rfl⟩, Colour.ofString_eq_error_iff.mp hread⟩
        · rw [hread] at hf
          exact absurd hf (hpainted _ f)
    · rw [draw_of_not_size _ _ d hsize] at hf
      cases hf
  · rintro ⟨hsize, ⟨paint, hlaid⟩, hcuts⟩
    refine ⟨.cutCharacter, ?_⟩
    rw [draw_of_ok _ _ d hsize (mapError_of_ok Sum.inr hlaid),
      Colour.ofString_eq_error_iff.mpr hcuts]
  · obtain ⟨bytes, hload⟩ := Settings.exists_ofFile_background canvas.background
    exact ⟨bytes, _, hload, Canvas.hasSize_default _, rfl⟩

/-- Two characters of three bytes each after the hash sign make drawing fault, for every renderer
that has laid the drawing out. -/
theorem not_forall_not_faults : Drawing.ofString Drawing.unpaintedText = .ok .unpainted ∧
    ∀ {ε α : Type} (render : Renderer ε α),
      (∃ paint, render .unpainted ({} : Canvas).width ({} : Canvas).height = .ok paint) →
      ¬∀ (path : String) (bytes : ByteArray) (s : Settings),
        Settings.ofFile path (.ok bytes) = .ok s → ¬render.Faults .unpainted s.canvas := by
  refine ⟨Drawing.ofString_unpainted, ?_⟩
  rintro ε α render ⟨paint, hlaid⟩ hall
  obtain ⟨bytes, hload⟩ := Settings.exists_ofFile_background "#€€"
  have hread : Colour.ofString "#€€" = .error .cutCharacter := by decide
  refine hall _ bytes _ hload ⟨.cutCharacter, ?_⟩
  rw [draw_of_ok _ _ _ (Canvas.hasSize_default "#€€") (mapError_of_ok Sum.inr hlaid), hread]

end Renderer
end GraphFolding
