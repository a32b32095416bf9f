/-
Settings files: JSON5 if the name ends so, and JSON otherwise.

* `Settings.ofText` — the settings that a text holds, in the notation that the file name
  calls for;
* `Settings.ofFile` — the settings of a file, whose fold rules can be worked with.
-/
import GraphFolding.File.Error
import GraphFolding.File.Path
import GraphFolding.Settings.FromJson5
namespace GraphFolding

/-- Why a file holds no settings. -/
inductive SettingsError where
  | json (error : Json.Error)
  | json5 (error : Json5.Error)
  | emptySeparator
  deriving DecidableEq, Repr

/-- The text that names a failure; a fault has none. -/
def SettingsError.message? : SettingsError → Option String
  | json error => some error.message
  | json5 error => error.message?
  | emptySeparator => some "separator must not be empty"

/-- Why settings cannot be loaded from a file. -/
inductive LoadError where
  | file (error : FileError)
  | content (error : SettingsError)
  deriving DecidableEq, Repr

/-- Fold rules that folding can work with. -/
def FoldRules.checked (r : FoldRules) : Except SettingsError FoldRules :=
  if r.check then .ok r else .error .emptySeparator

/-- The fold rules that a JSON text states, if they can be worked with. -/
def FoldRules.ofText (text : String) : Except SettingsError FoldRules := do
  let r ← (FoldRules.ofJson text).mapError .json
  r.checked

namespace Settings

/-- Whether the name of a file calls for JSON5. -/
def isJson5Name (path : String) : Bool :=
  (Path.extension? path).any fun ending => ending.map Char.toLower = "json5".toList

/-- The settings that a text holds, in the notation that the file name calls for. -/
def read (path text : String) : Except SettingsError Settings :=
  if isJson5Name path then (ofJson5 text).mapError .json5 else (ofJson text).mapError .json

/-- The settings that a text holds, if its fold rules can be worked with. -/
def ofText (path text : String) : Except SettingsError Settings := do
  let settings ← read path text
  let _ ← settings.fold.checked
  return settings

/-- The settings of a file. -/
def ofFile (path : String) (bytes : Except FileError ByteArray) : Except LoadError Settings := do
  let bytes ← bytes.mapError .file
  let text ← (decodeText bytes).mapError .file
  (ofText path text).mapError .content

end Settings
end GraphFolding
