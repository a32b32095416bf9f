/-
Writing text so that reading it gives the same text back.

* `escapeText` — character data: the ampersand and both angle brackets by name;
* `escapeAttribute` — an attribute value: also the double quote by name, and every blank
  but the space by its number, since reading would turn it into a space.
-/
namespace GraphFolding.Xml

/-- A character as it is written in character data. -/
def escapeTextChar : Char → List Char
  | '&' => "&amp;".toList
  | '<' => "&lt;".toList
  | '>' => "&gt;".toList
  | c => [c]

/-- A character as it is written in an attribute value between double quotes. -/
def escapeAttributeChar : Char → List Char
  | '\x22' => "&quot;".toList
  | '\n' => "&#10;".toList
  | '\r' => "&#13;".toList
  | '\t' => "&#9;".toList
  | c => escapeTextChar c

/-- Character data as it is written. -/
def escapeText (s : String) : String := String.ofList (s.toList.flatMap escapeTextChar)

/-- An attribute value as it is written between double quotes. -/
def escapeAttribute (s : String) : String :=
  String.ofList (s.toList.flatMap escapeAttributeChar)

end GraphFolding.Xml
