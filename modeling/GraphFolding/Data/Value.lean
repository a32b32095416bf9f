/-
Data values, as a settings file holds them, and the ways in which one of them is not what
was expected.

* `Numeral`, `Value` — numbers, and values of every kind;
* `Mismatch` — why a value cannot be decoded;
* `Mismatch.message` — the text that says so, in the wording of a notation.
-/
import GraphFolding.Number.Shortest
import GraphFolding.Text.Quoted
namespace GraphFolding.Data

/-- A number: a natural one, the negative of a positive one, or a floating-point number. -/
inductive Numeral where
  | natural (n : Nat)
  | negative (n : Nat)
  | real (x : Binary)
  deriving DecidableEq, Repr

/-- A value; the members of an object keep their order and their repeats. -/
inductive Value where
  | null
  | bool (b : Bool)
  | number (n : Numeral)
  | text (s : String)
  | list (items : List Value)
  | object (members : List (String × Value))
  deriving Repr

/-- What was found in the place of something else. -/
inductive Found where
  | null
  | bool (b : Bool)
  | number (n : Numeral)
  | text (s : String)
  | list
  | object
  deriving DecidableEq, Repr

/-- The kind of a value, with the value itself if it is a simple one. -/
def Value.found : Value → Found
  | null => .null
  | bool b => .bool b
  | number n => .number n
  | text s => .text s
  | list _ => .list
  | object _ => .object

/-- What was expected. -/
inductive Expected where
  | text
  | count
  | length
  | list
  | unit
  | textOrObject
  | singleMember
  | record (name : String)
  deriving DecidableEq, Repr

/-- Why a value cannot be decoded. -/
inductive Mismatch where
  | wrongType (found : Found) (expected : Expected)
  | wrongValue (found : Found) (expected : Expected)
  /-- A word that is not one of those to choose from. -/
  | unknownVariant (word : String) (choices : List String)
  | duplicateField (name : String)
  deriving DecidableEq, Repr

/-- How a notation speaks of its values. -/
structure Wording where
  null : String
  numbers : NumberLayout
  deriving DecidableEq, Repr

/-- The text for something found. -/
def Found.describe (w : Wording) : Found → String
  | null => w.null
  | bool b => "boolean `" ++ toString b ++ "`"
  | number (.natural n) => "integer `" ++ toString n ++ "`"
  | number (.negative n) => "integer `-" ++ toString n ++ "`"
  | number (.real x) => "floating point `" ++ w.numbers.text x ++ "`"
  | text s => "string " ++ Text.quoted s
  | list => "sequence"
  | object => "map"

/-- The text for something expected. -/
def Expected.describe : Expected → String
  | text => "a string"
  | count => "usize"
  | length => "f32"
  | list => "a sequence"
  | unit => "unit"
  | textOrObject => "string or map"
  | singleMember => "map with a single key"
  | record name => "struct " ++ name

/-- The text that says why a value cannot be decoded. -/
def Mismatch.message (w : Wording) : Mismatch → String
  | wrongType found expected =>
    "invalid type: " ++ found.describe w ++ ", expected " ++ expected.describe
  | wrongValue found expected =>
    "invalid value: " ++ found.describe w ++ ", expected " ++ expected.describe
  | unknownVariant word choices =>
    "unknown variant `" ++ word ++ "`, expected " ++
      " or ".intercalate (choices.map fun choice => "`" ++ choice ++ "`")
  | duplicateField name => "duplicate field `" ++ name ++ "`"

end GraphFolding.Data
