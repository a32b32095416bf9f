/-
A cursor in a text: what is left to read, and where it stands.

A cursor may cover a part of the text only, such as the value of an attribute; its end is
then the end of that part, while positions are those of the whole text.

* `Cursor.span`, `Cursor.spanAllowed` — the characters up to a place, and the cursor there;
* `Cursor.expect…` — reading past something that must come next.
-/
import GraphFolding.Xml.Char
import GraphFolding.Xml.Error
namespace GraphFolding.Xml

/-- What is left to read and its place in the text. -/
structure Cursor where
  position : Position
  rest : List Char
  deriving Repr

namespace Cursor

/-- The start of a text. -/
def ofString (s : String) : Cursor := ⟨.start, s.toList⟩

/-- Whether nothing is left. -/
def atEnd (k : Cursor) : Bool := k.rest.isEmpty

/-- Whether a text comes next. -/
def startsWith (k : Cursor) (s : String) : Bool := s.toList.isPrefixOf k.rest

/-- Past one character. -/
def advance (k : Cursor) : Cursor :=
  match k.rest with
  | [] => k
  | c :: rest => ⟨k.position.after c, rest⟩

/-- Past a number of characters. -/
def skip : Nat → Cursor → Cursor
  | 0, k => k
  | n + 1, k => skip n k.advance

/-- The characters of a class that come next, collected in reverse, and the cursor after
them. -/
def spanInto (p : Char → Bool) : List Char → Position → List Char → List Char × Cursor
  | found, position, [] => (found.reverse, ⟨position, []⟩)
  | found, position, c :: rest =>
    if p c then spanInto p (c :: found) (position.after c) rest
    else (found.reverse, ⟨position, c :: rest⟩)

/-- The characters of a class that come next, and the cursor after them. -/
def span (k : Cursor) (p : Char → Bool) : List Char × Cursor :=
  spanInto p [] k.position k.rest

/-- Past the blanks that come next. -/
def skipBlanks (k : Cursor) : Cursor := (k.span isBlank).2

/-- As `spanAllowed`, with the characters collected in reverse. -/
def spanAllowedInto (stop : List Char → Bool) :
    List Char → Position → List Char → Except Error (List Char × Cursor)
  | found, position, [] => .ok (found.reverse, ⟨position, []⟩)
  | found, position, c :: rest =>
    if !isAllowed c then .error (.forbiddenCharacter c position)
    else if stop (c :: rest) then .ok (found.reverse, ⟨position, c :: rest⟩)
    else spanAllowedInto stop (c :: found) (position.after c) rest

/-- The characters up to the place where `stop` holds of what is left; all of them, and the
one at that place, have to be allowed ones. -/
def spanAllowed (k : Cursor) (stop : List Char → Bool) : Except Error (List Char × Cursor) :=
  spanAllowedInto stop [] k.position k.rest

/-- The characters up to a text, as for `spanAllowed`. -/
def spanAllowedTo (k : Cursor) (s : String) : Except Error (List Char × Cursor) :=
  k.spanAllowed (s.toList.isPrefixOf ·)

/-- Past a definite character. -/
def expectChar (k : Cursor) (expected : Char) : Except Error Cursor :=
  match k.rest with
  | [] => .error .endOfText
  | c :: _ =>
    if c = expected then .ok k.advance else .error (.expectedChar expected c k.position)

/-- Past a definite text. -/
def expectText (k : Cursor) (expected : String) : Except Error Cursor :=
  if k.startsWith expected then .ok (k.skip expected.length)
  else .error (.expectedText expected k.position)

/-- Past at least one blank. -/
def expectBlanks (k : Cursor) : Except Error Cursor :=
  match k.rest with
  | [] => .error .endOfText
  | c :: _ =>
    if isBlank c then .ok k.skipBlanks
    else .error (.expectedKind "a whitespace" c k.position)

/-- Past an opening quote of either kind, which is returned. -/
def expectQuote (k : Cursor) : Except Error (Char × Cursor) :=
  match k.rest with
  | [] => .error .endOfText
  | c :: _ =>
    if c = '\x27' || c = '\x22' then .ok (c, k.advance)
    else .error (.expectedKind "a quote" c k.position)

/-- Past an equals sign and the blanks on both sides of it. -/
def expectEquals (k : Cursor) : Except Error Cursor := do
  let k ← k.skipBlanks.expectChar '='
  return k.skipBlanks

end Cursor
end GraphFolding.Xml
