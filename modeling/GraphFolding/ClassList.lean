/-
Class lists: the blank-separated words of a `class` attribute.

* `words` — the words of a value in order, repeats kept;
* `distinct` — every word once, at the place where it stands first;
* `switch` — the value with one word switched on or off, written in normal
  form: distinct words joined by single spaces.
-/
namespace GraphFolding.ClassList

/-- The blanks that part the words of a class list. -/
def isBlank (c : Char) : Bool :=
  c = ' ' || c = '\t' || c = '\n' || c = '\x0c' || c = '\r'

/-- The pieces between blanks; two blanks in a row have an empty piece between them. -/
def pieces : List Char → List (List Char)
  | [] => [[]]
  | c :: rest =>
    if isBlank c then [] :: pieces rest
    else match pieces rest with
      | [] => [[c]]
      | piece :: others => (c :: piece) :: others

/-- The words of a class list, in order. -/
def words (value : String) : List String :=
  ((pieces value.toList).filter (fun piece => !piece.isEmpty)).map String.ofList

/-- Every word of a class list once, at its first place. -/
def distinct (value : String) : List String :=
  (words value).eraseDups

/-- A list of words with one word switched on (at the end, if it is new) or off. -/
def switchWord (present : List String) (word : String) (on : Bool) : List String :=
  if on then
    if present.contains word then present else present ++ [word]
  else present.filter (· ≠ word)

/-- A class list with one word switched on or off, in normal form. -/
def switch (value word : String) (on : Bool) : String :=
  " ".intercalate (switchWord (distinct value) word on)

end GraphFolding.ClassList
