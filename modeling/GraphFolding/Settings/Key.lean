/-
The keys of a settings file, in three groups: those of the fold rules, which stand at the
top, and those of the sections `style` and `render`.

* `FoldKey`, `StyleKey`, `CanvasKey` — the keys;
* `Group` — a group of keys with the value that they change;
* `Nesting.ofWord?` — the two words for the nesting of clusters.
-/
import GraphFolding.Settings.Basic
import GraphFolding.Data.Value
namespace GraphFolding

/-- A group of keys: its name, its keys in order, and the value before any key. -/
structure Group (κ σ : Type) where
  name : String
  keys : List κ
  keyName : κ → String
  defaults : σ

/-- The key of a group that has a name. -/
def Group.key? {κ σ : Type} (g : Group κ σ) (name : String) : Option κ :=
  g.keys.find? fun key => g.keyName key = name

/-- The keys of the fold rules. -/
inductive FoldKey where
  | hiddenClass
  | collapsedClass
  | clusterAttribute
  | targetAttribute
  | hrefAttributes
  | frameClass
  | frameTitlePrefix
  | placeholderPrefix
  | separator
  | containerDepth
  | descendantMatch
  deriving DecidableEq, Repr

/-- The spelling of a key. -/
def FoldKey.name : FoldKey → String
  | hiddenClass => "hiddenClass"
  | collapsedClass => "collapsedClass"
  | clusterAttribute => "clusterAttribute"
  | targetAttribute => "targetAttribute"
  | hrefAttributes => "hrefAttributes"
  | frameClass => "frameClass"
  | frameTitlePrefix => "frameTitlePrefix"
  | placeholderPrefix => "placeholderPrefix"
  | separator => "separator"
  | containerDepth => "containerDepth"
  | descendantMatch => "descendantMatch"

/-- The group of the fold rules. -/
def FoldRules.group : Group FoldKey FoldRules where
  name := "FoldConfig"
  keys := [.hiddenClass, .collapsedClass, .clusterAttribute, .targetAttribute, .hrefAttributes,
    .frameClass, .frameTitlePrefix, .placeholderPrefix, .separator, .containerDepth,
    .descendantMatch]
  keyName := FoldKey.name
  defaults := {}

/-- The keys of the section `style`. -/
inductive StyleKey where
  | highlightStroke
  | extraCss
  deriving DecidableEq, Repr

/-- The spelling of a key. -/
def StyleKey.name : StyleKey → String
  | highlightStroke => "highlightStroke"
  | extraCss => "extraCss"

/-- The group of the section `style`. -/
def StyleRules.group : Group StyleKey StyleRules where
  name := "StyleConfig"
  keys := [.highlightStroke, .extraCss]
  keyName := StyleKey.name
  defaults := {}

/-- The keys of the section `render`. -/
inductive CanvasKey where
  | width
  | height
  | background
  deriving DecidableEq, Repr

/-- The spelling of a key. -/
def CanvasKey.name : CanvasKey → String
  | width => "width"
  | height => "height"
  | background => "background"

/-- The group of the section `render`. -/
def Canvas.group : Group CanvasKey Canvas where
  name := "RenderConfig"
  keys := [.width, .height, .background]
  keyName := CanvasKey.name
  defaults := {}

/-- The name of a whole settings file. -/
def Settings.name : String := "Config"

/-- The words for the nesting of clusters. -/
def Nesting.words : List String := ["segment", "prefix"]

/-- The nesting that a word stands for. -/
def Nesting.ofWord? : String → Option Nesting
  | "segment" => some .bySegment
  | "prefix" => some .byText
  | _ => none

/-- The nesting that a word stands for, or why it stands for none. -/
def Nesting.ofWord (word : String) : Except Data.Mismatch Nesting :=
  match Nesting.ofWord? word with
  | some nesting => .ok nesting
  | none => .error (.unknownVariant word Nesting.words)

end GraphFolding
