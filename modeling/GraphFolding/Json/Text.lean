/-
Strings of JSON texts.

* `Cursor.string` — the characters of a string, its escapes resolved and surrogates paired;
* `Cursor.skipString` — past a string whose characters are not wanted, where surrogates
  need no partner.

Both begin after the opening quote.
-/
import GraphFolding.Json.Cursor
namespace GraphFolding.Json.Cursor

/-- The value of a digit of base 16. -/
def hexValue? (c : Char) : Option Nat :=
  if '0' ≤ c && c ≤ '9' then some (c.toNat - '0'.toNat)
  else if 'a' ≤ c && c ≤ 'f' then some (c.toNat - 'a'.toNat + 10)
  else if 'A' ≤ c && c ≤ 'F' then some (c.toNat - 'A'.toNat + 10)
  else none

/-- The four digits of base 16 that come next; four bytes are taken as such digits, whatever
they are. -/
def hexUnit (k : Cursor) : Except Error (Nat × Cursor) :=
  match Position.afterBytes 4 k.position k.rest with
  | none => .error ⟨.endInString, k.position.afterAll k.rest⟩
  | some next =>
    match k.rest with
    | a :: b :: c :: d :: rest =>
      match hexValue? a, hexValue? b, hexValue? c, hexValue? d with
      | some a, some b, some c, some d => .ok (((a * 16 + b) * 16 + c) * 16 + d, ⟨next, rest⟩)
      | _, _, _, _ => .error ⟨.invalidEscape, next⟩
    | _ => .error ⟨.invalidEscape, next⟩

/-- Past one character of an escape that has to follow a leading surrogate. -/
def expectPairPart (k : Cursor) (expected : Char) : Except Error Cursor :=
  match k.rest with
  | [] => k.failHere .endInString
  | c :: _ => if c = expected then .ok k.advance else k.failNext .escapePairCut

/-- The character of a numbered escape, the cursor standing after its `u`. -/
def numberedEscape (k : Cursor) : Except Error (Char × Cursor) := do
  let (lead, k) ← k.hexUnit
  if 0xdc00 ≤ lead && lead ≤ 0xdfff then k.failHere .loneSurrogate
  else if lead < 0xd800 || 0xdbff < lead then return (Char.ofNat lead, k)
  else
    let k ← (← k.expectPairPart '\\').expectPairPart 'u'
    let (trail, k) ← k.hexUnit
    if trail < 0xdc00 || 0xdfff < trail then k.failHere .loneSurrogate
    else return (Char.ofNat ((lead - 0xd800) * 0x400 + (trail - 0xdc00) + 0x10000), k)

/-- The characters that have an escape of one letter. -/
def letterEscapes : List (Char × Char) :=
  [('\x22', '\x22'), ('\\', '\\'), ('/', '/'), ('b', '\x08'), ('f', '\x0c'), ('n', '\n'),
    ('r', '\r'), ('t', '\t')]

/-- The character of an escape, the cursor standing after the backslash. -/
def escape (k : Cursor) : Except Error (Char × Cursor) :=
  match k.rest with
  | [] => k.failHere .endInString
  | 'u' :: _ => k.advance.numberedEscape
  | c :: _ =>
    match letterEscapes.lookup c with
    | some plain => .ok (plain, k.advance)
    | none => k.failNext .invalidEscape

/-- As `string`, after characters in reverse. -/
def stringInto : Nat → List Char → Cursor → Except Error (String × Cursor)
  | 0, _, k => k.failHere .endInString
  | fuel + 1, found, k =>
    match k.rest with
    | [] => k.failHere .endInString
    | '\x22' :: _ => .ok (String.ofList found.reverse, k.advance)
    | '\\' :: _ => do
      let (c, k) ← k.advance.escape
      stringInto fuel (c :: found) k
    | c :: _ =>
      if c.toNat < 0x20 then k.failNext .controlCharacter
      else stringInto fuel (c :: found) k.advance

/-- The characters of a string. -/
def string (k : Cursor) : Except Error (String × Cursor) := stringInto (k.rest.length + 1) [] k

/-- Past an escape, the cursor standing after the backslash. -/
def skipEscape (k : Cursor) : Except Error Cursor :=
  match k.rest with
  | [] => k.failHere .endInString
  | 'u' :: _ => do return (← k.advance.hexUnit).2
  | c :: _ => if (letterEscapes.lookup c).isSome then .ok k.advance else k.failNext .invalidEscape

/-- As `skipString`, with a bound on the characters left. -/
def skipStringWithin : Nat → Cursor → Except Error Cursor
  | 0, k => k.failHere .endInString
  | fuel + 1, k =>
    match k.rest with
    | [] => k.failHere .endInString
    | '\x22' :: _ => .ok k.advance
    | '\\' :: _ => do skipStringWithin fuel (← k.advance.skipEscape)
    | c :: _ =>
      if c.toNat < 0x20 then k.failHere .controlCharacter else skipStringWithin fuel k.advance

/-- Past a string. -/
def skipString (k : Cursor) : Except Error Cursor := skipStringWithin (k.rest.length + 1) k

end GraphFolding.Json.Cursor
