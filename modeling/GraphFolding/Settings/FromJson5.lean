/-
Settings read from JSON5 texts.

* `Json5.Value.asGroup` — a group of keys, as an object or as a list of values in the order
  of the keys;
* `Settings.ofJson5` — all settings: the two sections are decoded key by key, the fold
  rules from the other members once all have been decoded.
-/
import GraphFolding.Json5.Reader
import GraphFolding.Settings.FromJson
namespace GraphFolding

namespace Json5

open Data

/-- A value that is not of the kind expected; a fault in the value itself counts instead. -/
def Value.mismatch {α : Type} (v : Value) (expected : Expected) : Except Error α := do
  throw (.mismatch (.wrongType (← v.found) expected))

/-- A value that has to be a string. -/
def Value.asText : Value → Except Error String
  | .text _ written => written.text
  | v => v.mismatch .text

/-- A value that has to be a string or null. -/
def Value.asOptionalText : Value → Except Error (Option String)
  | .null => .ok none
  | v => do return some (← v.asText)

/-- The failure to read as a number what has `next` for its second character.  The mark of a
base would be the first two bytes, which cut a longer character. -/
def noNumber (next : Option Char) : Error :=
  if next.any (1 < ·.utf8Size) then .cutCharacter else .invalidNumber

/-- A value that has to be a number: the nearest 32-bit number to the nearest 64-bit one. -/
def Value.asLength : Value → Except Error Binary
  | .number written => do return (← Numeral.real written).convert .single
  | .text next _ | .list next _ | .object next _ => .error (noNumber next)
  | .null | .bool _ => .error .invalidNumber

section

variable {κ σ : Type} [DecidableEq κ]

/-- The members of an object applied to a value, after the keys seen before.  The values of
other keys are decoded too, and do not count. -/
def groupMembers (g : Group κ σ) (decode : κ → Value → Except Error (σ → σ)) :
    List κ → σ → List (Literal × Value) → Except Error σ
  | _, state, [] => .ok state
  | seen, state, (name, v) :: rest => do
    let name ← name.text
    match g.key? name with
    | none =>
      let _ ← v.decode
      groupMembers g decode seen state rest
    | some key =>
      if seen.contains key then throw (.mismatch (.duplicateField name))
      let change ← decode key v
      groupMembers g decode (key :: seen) (change state) rest

/-- The items of a list applied to a value in the order of the keys; further items are not
looked at. -/
def groupItems (decode : κ → Value → Except Error (σ → σ)) :
    List κ → σ → List Value → Except Error σ
  | key :: keys, state, v :: rest => do
    let change ← decode key v
    groupItems decode keys (change state) rest
  | _, state, _ => .ok state

/-- A group of keys: an object, or a list of values in the order of the keys. -/
def Value.asGroup (g : Group κ σ) (decode : κ → Value → Except Error (σ → σ)) :
    Value → Except Error σ
  | .object _ members => groupMembers g decode [] g.defaults members
  | .list _ items => groupItems decode g.keys g.defaults items
  | v => v.mismatch (.record g.name)

end

end Json5

/-- The change that the value of a key makes to the style. -/
def StyleKey.decode (key : StyleKey) (v : Json5.Value) :
    Except Json5.Error (StyleRules → StyleRules) :=
  match key with
  | highlightStroke => do let s ← v.asText; return ({ · with highlightStroke := s })
  | extraCss => do let s ← v.asOptionalText; return ({ · with extraCss := s })

/-- The change that the value of a key makes to the canvas. -/
def CanvasKey.decode (key : CanvasKey) (v : Json5.Value) :
    Except Json5.Error (Canvas → Canvas) :=
  match key with
  | width => do let x ← v.asLength; return ({ · with width := x })
  | height => do let x ← v.asLength; return ({ · with height := x })
  | background => do let s ← v.asText; return ({ · with background := s })

namespace Settings

/-- One member more. -/
def Members.addJson5 (m : Members) (name : String) (v : Json5.Value) :
    Except Json5.Error Members :=
  if name = "style" then
    if m.style.isSome then .error (.mismatch (.duplicateField name))
    else do return { m with style := some (← v.asGroup StyleRules.group StyleKey.decode) }
  else if name = "render" then
    if m.canvas.isSome then .error (.mismatch (.duplicateField name))
    else do return { m with canvas := some (← v.asGroup Canvas.group CanvasKey.decode) }
  else do return { m with others := m.others ++ [(name, ← v.decode)] }

/-- The members of a settings file. -/
def membersOfJson5 (m : Members) : List (Json5.Literal × Json5.Value) → Except Json5.Error Members
  | [] => .ok m
  | (name, v) :: rest => do
    let name ← name.text
    let m ← m.addJson5 name v
    membersOfJson5 m rest

/-- All settings. -/
def ofJson5 (text : String) : Except Json5.Error Settings :=
  match Json5.Value.ofString? text with
  | none => .error .malformed
  | some (.object _ members) => do
    let m ← membersOfJson5 {} members
    match m.settings with
    | .ok settings => return settings
    | .error mismatch => throw (.mismatch mismatch)
  | some v => v.mismatch (.record Settings.name)

end Settings
end GraphFolding
