/-
Settings read from JSON texts.

* `Json.Cursor.group` — a group of keys, as an object or as a list of values in the order
  of the keys;
* `FoldRules.ofJson` — fold rules alone, read key by key;
* `Settings.ofJson` — all settings: the two sections are read key by key, while the fold
  rules are decoded from the other members once all have been read.
-/
import GraphFolding.Json.Reader
import GraphFolding.Settings.FromValue
namespace GraphFolding

namespace Json.Cursor

open Data

/-- A string. -/
def text (k : Cursor) : Except Error (String × Cursor) :=
  let k := k.skipBlanks
  match k.rest with
  | [] => k.failNext .endInValue
  | '\x22' :: _ => k.advance.string
  | _ => k.mismatch .text

/-- A string or null. -/
def optionalText (k : Cursor) : Except Error (Option String × Cursor) :=
  let k := k.skipBlanks
  match k.rest with
  | 'n' :: _ => do return (none, ← expectWord "ull".toList k.advance)
  | _ => do
    let (s, k) ← k.text
    return (some s, k)

/-- A number of any kind. -/
def number (k : Cursor) (expected : Expected) : Except Error (Numeral × Cursor) :=
  let k := k.skipBlanks
  match k.rest with
  | [] => k.failNext .endInValue
  | '-' :: _ => k.advance.numeral true
  | c :: _ => if isDigit c then k.numeral false else k.mismatch expected

/-- A natural number. -/
def count (k : Cursor) : Except Error (Nat × Cursor) := do
  match ← k.number .count with
  | (.natural n, k) => return (n, k)
  | (.negative n, k) => k.failMismatch (.wrongValue (.number (.negative n)) .count)
  | (.real x, k) => k.failMismatch (.wrongType (.number (.real x)) .count)

/-- A length: the nearest 32-bit number. -/
def length (k : Cursor) : Except Error (Binary × Cursor) := do
  match ← k.number .length with
  | (.natural n, k) => return (Format.single.round false n 1, k)
  | (.negative n, k) => return (Format.single.round true n 1, k)
  | (.real x, k) => return (x.convert .single, k)

/-- The strings of a list up to its end. -/
def textsWithin : Nat → Bool → Cursor → Except Error (List String × Cursor)
  | 0, _, k => k.failHere .endInList
  | fuel + 1, isFirst, k => do
    let (more, k) ← k.nextItem isFirst
    if more then
      let (s, k) ← k.text
      let (rest, k) ← textsWithin fuel false k
      return (s :: rest, k)
    else return ([], k)

/-- A list of strings. -/
def texts (k : Cursor) : Except Error (List String × Cursor) :=
  let k := k.skipBlanks
  match k.rest with
  | [] => k.failNext .endInValue
  | '[' :: _ => textsWithin k.rest.length true k.advance
  | _ => k.mismatch .list

/-- Null. -/
def unit (k : Cursor) : Except Error Cursor :=
  let k := k.skipBlanks
  match k.rest with
  | [] => k.failNext .endInValue
  | 'n' :: _ => expectWord "ull".toList k.advance
  | _ => k.mismatch .unit

/-- A word for the nesting of clusters, after its opening quote. -/
def nestingWord (k : Cursor) : Except Error (Nesting × Cursor) := do
  let (word, k) ← k.string
  match Nesting.ofWord word with
  | .ok nesting => return (nesting, k)
  | .error m => k.failMismatch m

/-- A word for the nesting of clusters as the first key of an object. -/
def nestingKey (k : Cursor) : Except Error (Nesting × Cursor) :=
  let k := k.skipBlanks
  match k.rest with
  | [] => k.failNext .endInObject
  | '\x22' :: _ => k.advance.nestingWord
  | '\x7d' :: _ => k.failNext .expectedValue
  | _ => k.failNext .keyNotString

/-- The nesting of clusters: one of the words for it, alone or as the only key of an object
whose value is null. -/
def nesting (k : Cursor) : Except Error (Nesting × Cursor) :=
  let k := k.skipBlanks
  match k.rest with
  | [] => k.failNext .endInValue
  | '\x22' :: _ => k.advance.nestingWord
  | '\x7b' :: _ => do
    let (nesting, k) ← k.advance.nestingKey
    let k := (← (← k.expectColon).unit).skipBlanks
    match k.rest with
    | [] => k.failHere .endInObject
    | '\x7d' :: _ => return (nesting, k.advance)
    | _ => k.failHere .expectedValue
  | _ => k.failNext .expectedValue

section

variable {κ σ : Type} [DecidableEq κ]

/-- The fault of a key that was there before, just after the key; a brace that follows is
passed. -/
def duplicate {α : Type} (k : Cursor) (name : String) : Except Error α :=
  let k := k.skipBlanks
  let k := if k.rest.head? = some '\x7d' then k.advance else k
  k.failMismatch (.duplicateField name)

/-- The members of an object, up to its end, applied to a value after the keys seen before. -/
def groupMembers (g : Group κ σ) (read : κ → Cursor → Except Error ((σ → σ) × Cursor)) :
    Nat → Bool → List κ → σ → Cursor → Except Error (σ × Cursor)
  | 0, _, _, _, k => k.failHere .endInObject
  | fuel + 1, isFirst, seen, state, k => do
    match ← k.nextKey isFirst with
    | (none, k) => return (state, k)
    | (some name, k) =>
      match g.key? name with
      | none => groupMembers g read fuel false seen state (← (← k.expectColon).skipValue)
      | some key =>
        if seen.contains key then k.duplicate name
        else
          let (change, k) ← read key (← k.expectColon)
          groupMembers g read fuel false (key :: seen) (change state) k

/-- The end of a list all of whose items have been read. -/
def listEnd (k : Cursor) : Except Error Cursor :=
  let k := k.skipBlanks
  match k.rest with
  | [] => k.failNext .endInList
  | ']' :: _ => .ok k.advance
  | ',' :: _ =>
    let k := k.advance.skipBlanks
    k.failNext (if k.rest.head? = some ']' then .trailingComma else .trailingCharacters)
  | _ => k.failNext .trailingCharacters

/-- The items of a list, up to its end, applied to a value in the order of the keys. -/
def groupItems (read : κ → Cursor → Except Error ((σ → σ) × Cursor)) :
    List κ → Bool → σ → Cursor → Except Error (σ × Cursor)
  | [], _, state, k => do return (state, ← k.listEnd)
  | key :: keys, isFirst, state, k => do
    let (more, k) ← k.nextItem isFirst
    if more then
      let (change, k) ← read key k
      groupItems read keys false (change state) k
    else return (state, k)

/-- A group of keys: an object, or a list of values in the order of the keys. -/
def group (k : Cursor) (g : Group κ σ) (read : κ → Cursor → Except Error ((σ → σ) × Cursor)) :
    Except Error (σ × Cursor) :=
  let k := k.skipBlanks
  match k.rest with
  | [] => k.failNext .endInValue
  | '\x7b' :: _ => groupMembers g read k.rest.length true [] g.defaults k.advance
  | '[' :: _ => groupItems read g.keys true g.defaults k.advance
  | _ => k.mismatch (.record g.name)

end

end Json.Cursor

open Json (Cursor)

/-- The change that the value of a key, read at a cursor, makes to the rules. -/
def FoldKey.read (key : FoldKey) (k : Cursor) :
    Except Json.Error ((FoldRules → FoldRules) × Cursor) :=
  match key with
  | hiddenClass => do let (s, k) ← k.text; return (({ · with hiddenClass := s }), k)
  | collapsedClass => do let (s, k) ← k.text; return (({ · with collapsedClass := s }), k)
  | clusterAttribute => do let (s, k) ← k.text; return (({ · with clusterAttribute := s }), k)
  | targetAttribute => do let (s, k) ← k.text; return (({ · with targetAttribute := s }), k)
  | hrefAttributes => do let (s, k) ← k.texts; return (({ · with hrefAttributes := s }), k)
  | frameClass => do let (s, k) ← k.text; return (({ · with frameClass := s }), k)
  | frameTitlePrefix => do let (s, k) ← k.text; return (({ · with frameTitlePrefix := s }), k)
  | placeholderPrefix => do let (s, k) ← k.text; return (({ · with placeholderPrefix := s }), k)
  | separator => do let (s, k) ← k.text; return (({ · with separator := s }), k)
  | containerDepth => do let (n, k) ← k.count; return (({ · with containerDepth := n }), k)
  | descendantMatch => do let (n, k) ← k.nesting; return (({ · with nesting := n }), k)

/-- The change that the value of a key, read at a cursor, makes to the style. -/
def StyleKey.read (key : StyleKey) (k : Cursor) :
    Except Json.Error ((StyleRules → StyleRules) × Cursor) :=
  match key with
  | highlightStroke => do let (s, k) ← k.text; return (({ · with highlightStroke := s }), k)
  | extraCss => do let (s, k) ← k.optionalText; return (({ · with extraCss := s }), k)

/-- The change that the value of a key, read at a cursor, makes to the canvas. -/
def CanvasKey.read (key : CanvasKey) (k : Cursor) :
    Except Json.Error ((Canvas → Canvas) × Cursor) :=
  match key with
  | width => do let (x, k) ← k.length; return (({ · with width := x }), k)
  | height => do let (x, k) ← k.length; return (({ · with height := x }), k)
  | background => do let (s, k) ← k.text; return (({ · with background := s }), k)

/-- Fold rules alone. -/
def FoldRules.ofJson (text : String) : Except Json.Error FoldRules := do
  let (r, k) ← (Cursor.ofString text).group FoldRules.group FoldKey.read
  k.finish
  return r

namespace Settings

/-- What has been read of the members of a settings file: the two sections, if they were
there, and the other members. -/
structure Members where
  style : Option StyleRules := none
  canvas : Option Canvas := none
  others : List (String × Data.Value) := []

/-- The settings that members state. -/
def Members.settings (m : Members) : Except Data.Mismatch Settings := do
  let fold ← FoldRules.ofMembers m.others
  return { fold, style := m.style.getD {}, canvas := m.canvas.getD {} }

/-- One member more, the cursor standing after its name. -/
def Members.add (m : Members) (name : String) (k : Cursor) :
    Except Json.Error (Members × Cursor) :=
  if name = "style" then
    if m.style.isSome then k.duplicate name
    else do
      let (style, k) ← (← k.expectColon).group StyleRules.group StyleKey.read
      return ({ m with style := some style }, k)
  else if name = "render" then
    if m.canvas.isSome then k.duplicate name
    else do
      let (canvas, k) ← (← k.expectColon).group Canvas.group CanvasKey.read
      return ({ m with canvas := some canvas }, k)
  else do
    let (value, k) ← (← k.expectColon).value (Json.depthLimit - 1)
    return ({ m with others := m.others ++ [(name, value)] }, k)

/-- The members of a settings file up to its end. -/
def membersWithin : Nat → Bool → Members → Cursor → Except Json.Error (Members × Cursor)
  | 0, _, _, k => k.failHere .endInObject
  | fuel + 1, isFirst, m, k => do
    match ← k.nextKey isFirst with
    | (none, k) => return (m, k)
    | (some name, k) =>
      let (m, k) ← m.add name k
      membersWithin fuel false m k

/-- All settings. -/
def ofJson (text : String) : Except Json.Error Settings := do
  let k := (Cursor.ofString text).skipBlanks
  match k.rest with
  | [] => k.failNext .endInValue
  | '\x7b' :: _ =>
    let (m, k) ← membersWithin k.rest.length true {} k.advance
    match m.settings with
    | .ok settings =>
      k.finish
      return settings
    | .error mismatch => k.failMismatch mismatch
  | _ => k.mismatch (.record Settings.name)

end Settings
end GraphFolding
