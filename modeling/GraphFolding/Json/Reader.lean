/-
Values of JSON texts.

* `Cursor.value` — a value of any kind, nested to a limited depth;
* `Cursor.skipValue` — past a value that is not wanted, nested to any depth;
* `Cursor.nextItem`, `Cursor.nextKey` — whether a list or an object goes on;
* `Cursor.mismatch` — the fault of a value that is not of the kind expected.
-/
import GraphFolding.Json.Numeral
import GraphFolding.Json.Text
namespace GraphFolding.Json

open Data

/-- How deeply lists and objects may be nested, less one. -/
def depthLimit : Nat := 128

namespace Cursor

/-- The cursor at the next item of a list, or after its end. -/
def nextItem (isFirst : Bool) (k : Cursor) : Except Error (Bool × Cursor) :=
  let k := k.skipBlanks
  match k.rest with
  | [] => k.failNext .endInList
  | ']' :: _ => .ok (false, k.advance)
  | c :: _ =>
    if isFirst then .ok (true, k)
    else if c = ',' then
      let k := k.advance.skipBlanks
      match k.rest with
      | [] => k.failNext .endInValue
      | ']' :: _ => k.failNext .trailingComma
      | _ => .ok (true, k)
    else k.failNext .expectedCommaOrBracket

/-- The next key of an object and the cursor after it, or the cursor after its end. -/
def nextKey (isFirst : Bool) (k : Cursor) : Except Error (Option String × Cursor) :=
  let k := k.skipBlanks
  match k.rest with
  | [] => k.failNext .endInObject
  | '\x7d' :: _ => .ok (none, k.advance)
  | c :: _ =>
    if isFirst then
      if c = '\x22' then key k else k.failNext .keyNotString
    else if c = ',' then
      let k := k.advance.skipBlanks
      match k.rest with
      | [] => k.failNext .endInValue
      | '\x22' :: _ => key k
      | '\x7d' :: _ => k.failNext .trailingComma
      | _ => k.failNext .keyNotString
    else k.failNext .expectedCommaOrBrace
where
  key (k : Cursor) : Except Error (Option String × Cursor) := do
    let (name, k) ← k.advance.string
    return (some name, k)

/-- A value that is neither a list nor an object. -/
def simpleValue (k : Cursor) : Except Error (Value × Cursor) :=
  match k.rest with
  | [] => k.failNext .endInValue
  | 'n' :: _ => do return (.null, ← expectWord "ull".toList k.advance)
  | 't' :: _ => do return (.bool true, ← expectWord "rue".toList k.advance)
  | 'f' :: _ => do return (.bool false, ← expectWord "alse".toList k.advance)
  | '\x22' :: _ => do
    let (s, k) ← k.advance.string
    return (.text s, k)
  | '-' :: _ => do
    let (n, k) ← k.advance.numeral true
    return (.number n, k)
  | c :: _ =>
    if isDigit c then do
      let (n, k) ← k.numeral false
      return (.number n, k)
    else k.failNext .expectedValue

mutual

/-- A value, where lists and objects may be nested in less than `depth` levels. -/
def valueWithin : Nat → Nat → Cursor → Except Error (Value × Cursor)
  | 0, _, k => k.failHere .tooDeep
  | fuel + 1, depth, k =>
    let k := k.skipBlanks
    match k.rest with
    | '[' :: _ =>
      if depth ≤ 1 then k.failNext .tooDeep
      else do
        let (items, k) ← itemsWithin fuel (depth - 1) true k.advance
        return (.list items, k)
    | '\x7b' :: _ =>
      if depth ≤ 1 then k.failNext .tooDeep
      else do
        let (members, k) ← membersWithin fuel (depth - 1) true k.advance
        return (.object members, k)
    | _ => k.simpleValue

/-- The items of a list up to its end. -/
def itemsWithin : Nat → Nat → Bool → Cursor → Except Error (List Value × Cursor)
  | 0, _, _, k => k.failHere .tooDeep
  | fuel + 1, depth, isFirst, k => do
    let (more, k) ← k.nextItem isFirst
    if more then
      let (item, k) ← valueWithin fuel depth k
      let (items, k) ← itemsWithin fuel depth false k
      return (item :: items, k)
    else return ([], k)

/-- The members of an object up to its end. -/
def membersWithin : Nat → Nat → Bool → Cursor → Except Error (List (String × Value) × Cursor)
  | 0, _, _, k => k.failHere .tooDeep
  | fuel + 1, depth, isFirst, k => do
    match ← k.nextKey isFirst with
    | (none, k) => return ([], k)
    | (some name, k) =>
      let (value, k) ← valueWithin fuel depth (← k.expectColon)
      let (members, k) ← membersWithin fuel depth false k
      return ((name, value) :: members, k)

end

/-- A value, where lists and objects may be nested in less than `depth` levels. -/
def value (k : Cursor) (depth : Nat) : Except Error (Value × Cursor) :=
  valueWithin (2 * k.rest.length + 2) depth k

/-- A bracket that opens a list or an object. -/
inductive Bracket where
  | list
  | object
  deriving DecidableEq, Repr

/-- Past a value that is neither a list nor an object. -/
def skipSimpleValue (k : Cursor) : Except Error Cursor :=
  match k.rest with
  | [] => k.failNext .endInValue
  | 'n' :: _ => expectWord "ull".toList k.advance
  | 't' :: _ => expectWord "rue".toList k.advance
  | 'f' :: _ => expectWord "alse".toList k.advance
  | '\x22' :: _ => k.advance.skipString
  | '-' :: _ => k.advance.skipNumeral
  | c :: _ => if isDigit c then k.skipNumeral else k.failNext .expectedValue

/-- Past the key of a member and its colon. -/
def skipKey (k : Cursor) : Except Error Cursor :=
  let k := k.skipBlanks
  match k.rest with
  | [] => k.failNext .endInObject
  | '\x22' :: _ => do (← k.advance.skipString).expectColon
  | _ => k.failNext .keyNotString

/-- Past what leads to the next value inside the innermost of the open brackets: a bracket
that closes it or, unless it was just opened, a comma. -/
def skipToValue : Nat → Bool → List Bracket → Cursor → Except Error (List Bracket × Cursor)
  | 0, _, _, k => k.failHere .endInValue
  | _ + 1, _, [], k => .ok ([], k)
  | fuel + 1, justOpened, bracket :: outer, k =>
    let k := k.skipBlanks
    let go (k : Cursor) : Except Error (List Bracket × Cursor) :=
      match bracket with
      | .list => .ok (bracket :: outer, k)
      | .object => do return (bracket :: outer, ← k.skipKey)
    match k.rest, bracket with
    | [], .list => k.failNext .endInList
    | [], .object => k.failNext .endInObject
    | ']' :: _, .list => skipToValue fuel false outer k.advance
    | '\x7d' :: _, .object => skipToValue fuel false outer k.advance
    | c :: _, _ =>
      if justOpened then go k
      else if c = ',' then go k.advance
      else match bracket with
        | .list => k.failNext .expectedCommaOrBracket
        | .object => k.failNext .expectedCommaOrBrace

/-- Past a value inside open brackets, and past all that follows until the last of them is
closed. -/
def skipWithin : Nat → List Bracket → Cursor → Except Error Cursor
  | 0, _, k => k.failHere .endInValue
  | fuel + 1, open_, k => do
    let k := k.skipBlanks
    let (open_, k) ← match k.rest with
      | '[' :: _ => skipToValue fuel true (.list :: open_) k.advance
      | '\x7b' :: _ => skipToValue fuel true (.object :: open_) k.advance
      | _ => do skipToValue fuel false open_ (← k.skipSimpleValue)
    if open_.isEmpty then return k else skipWithin fuel open_ k

/-- Past a value. -/
def skipValue (k : Cursor) : Except Error Cursor :=
  skipWithin (2 * k.rest.length + 2) [] k

/-- The fault of a value that is not of the kind expected.  A simple value is read first,
and a fault in it counts instead. -/
def mismatch {α : Type} (k : Cursor) (expected : Expected) : Except Error α :=
  match k.rest with
  | '[' :: _ => k.failMismatch (.wrongType .list expected)
  | '\x7b' :: _ => k.failMismatch (.wrongType .object expected)
  | _ => do
    let (value, k) ← k.simpleValue
    k.failMismatch (.wrongType value.found expected)

/-- Past the end of a text, blanks apart. -/
def finish (k : Cursor) : Except Error Unit :=
  let k := k.skipBlanks
  if k.rest.isEmpty then .ok () else k.failNext .trailingCharacters

end Cursor
end GraphFolding.Json
