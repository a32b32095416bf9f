/-
The notation JSON5: JSON with comments, unquoted keys, single quotes, trailing commas,
numbers of more forms and strings that go on over line ends.

* `Value.ofString?` — the value that a text holds, or none if it breaks the notation.
-/
import GraphFolding.Json5.Value
import GraphFolding.Text.Letter
namespace GraphFolding.Json5

/-- The characters that end a line. -/
def isLineEnd (c : Char) : Bool :=
  c = '\n' || c = '\r' || c = '\u2028' || c = '\u2029'

/-- The blanks between tokens. -/
def isBlank (c : Char) : Bool :=
  c = '\t' || c = '\x0b' || c = '\x0c' || c = ' ' || c = '\u00a0' || c = '\ufeff' ||
    c = '\u1680' || ('\u2000' ≤ c && c ≤ '\u200a') || c = '\u202f' || c = '\u205f' ||
    c = '\u3000' || isLineEnd c

/-- What follows the end of a comment between `/*` and `*/`, if it has one. -/
def afterComment : List Char → Option (List Char)
  | [] => none
  | '*' :: '/' :: rest => some rest
  | _ :: rest => afterComment rest

/-- Past blanks and comments; a comment without an end is left. -/
def skipWithin : Nat → List Char → List Char
  | 0, text => text
  | fuel + 1, text =>
    match text.dropWhile isBlank with
    | '/' :: '/' :: rest => skipWithin fuel (rest.dropWhile (!isLineEnd ·))
    | '/' :: '*' :: rest =>
      match afterComment rest with
      | some rest => skipWithin fuel rest
      | none => '/' :: '*' :: rest
    | text => text

/-- Past blanks and comments. -/
def skip (text : List Char) : List Char := skipWithin (text.length + 1) text

/-- A number of digits of base 16, and the rest. -/
def figures? (count : Nat) (text : List Char) : Option (List Char × List Char) :=
  let figures := text.take count
  if figures.length = count && figures.all isHexDigit then some (figures, text.drop count)
  else none

/-- What a backslash and the text after it stand for: a piece of a string, or nothing if a
line goes on. -/
def escape? : List Char → Option (Option Piece × List Char)
  | [] => none
  | 'x' :: rest => (figures? 2 rest).map fun (figures, rest) => (some (.numbered figures), rest)
  | 'u' :: rest => (figures? 4 rest).map fun (figures, rest) => (some (.numbered figures), rest)
  | '\r' :: '\n' :: rest => some (none, rest)
  | c :: rest =>
    if isLineEnd c then some (none, rest)
    else if c.isDigit && c ≠ '0' then none
    else some (some (.escaped c), rest)

/-- The rest of a string that was opened by a quote. -/
def stringWithin (quote : Char) : Nat → List Char → Option (Literal × List Char)
  | 0, _ => none
  | fuel + 1, text =>
    match text with
    | [] => none
    | '\\' :: rest => do
      let (piece, rest) ← escape? rest
      let (more, rest) ← stringWithin quote fuel rest
      return (piece.toList ++ more, rest)
    | c :: rest =>
      if c = quote then some ([], rest)
      else if isLineEnd c then none
      else do
        let (more, rest) ← stringWithin quote fuel rest
        return (.plain c :: more, rest)

/-- A string. -/
def string? : List Char → Option (Literal × List Char)
  | '\x22' :: rest => stringWithin '\x22' (rest.length + 1) rest
  | '\x27' :: rest => stringWithin '\x27' (rest.length + 1) rest
  | _ => none

/-- The pieces of an identifier; only the first may not be a mark. -/
def identifierWithin : Nat → Bool → List Char → Option (Literal × List Char)
  | 0, _, _ => none
  | fuel + 1, isFirst, text =>
    match text with
    | '\\' :: 'u' :: rest =>
      match figures? 4 rest with
      | some (figures, rest) => do
        let (more, rest) ← identifierWithin fuel false rest
        return (.numbered figures :: more, rest)
      | none => if isFirst then none else some ([], text)
    | c :: rest =>
      if Text.isLetter c || c = '$' || c = '_' || (!isFirst && Text.isLetterMark c) then do
        let (more, rest) ← identifierWithin fuel false rest
        return (.plain c :: more, rest)
      else if isFirst then none
      else some ([], text)
    | [] => if isFirst then none else some ([], [])

/-- A key: a string or an identifier. -/
def key? (text : List Char) : Option (Literal × List Char) :=
  match text with
  | '\x22' :: _ => string? text
  | '\x27' :: _ => string? text
  | _ => identifierWithin (text.length + 1) true text

/-- An exponent, if there is one. -/
def exponent (text : List Char) : List Char × List Char :=
  match text with
  | [] => ([], [])
  | mark :: rest =>
    if mark = 'e' || mark = 'E' then
      let (sign, rest) := match rest with
        | '+' :: rest => (['+'], rest)
        | '-' :: rest => (['-'], rest)
        | _ => ([], rest)
      let figures := rest.takeWhile Char.isDigit
      if figures.isEmpty then ([], text)
      else (mark :: sign ++ figures, rest.dropWhile Char.isDigit)
    else ([], text)

/-- The digits before a point: a zero alone, or digits that begin otherwise. -/
def wholePart : List Char → Option (List Char × List Char)
  | '0' :: rest => some (['0'], rest)
  | text =>
    let figures := text.takeWhile Char.isDigit
    if figures.isEmpty then none else some (figures, text.dropWhile Char.isDigit)

/-- A number with base 10, as it is written. -/
def decimal? (text : List Char) : Option (List Char × List Char) :=
  match wholePart text with
  | some (whole, '.' :: rest) =>
    let (power, after) := exponent (rest.dropWhile Char.isDigit)
    some (whole ++ '.' :: rest.takeWhile Char.isDigit ++ power, after)
  | some (whole, rest) =>
    let (power, after) := exponent rest
    some (whole ++ power, after)
  | none =>
    match text with
    | '.' :: rest =>
      let figures := rest.takeWhile Char.isDigit
      if figures.isEmpty then none
      else
        let (power, after) := exponent (rest.dropWhile Char.isDigit)
        some ('.' :: figures ++ power, after)
    | _ => none

/-- A text that has to come next, and the rest. -/
def word? (word text : List Char) : Option (List Char) :=
  if word.isPrefixOf text then some (text.drop word.length) else none

/-- An unsigned number, as it is written. -/
def unsigned? (text : List Char) : Option (List Char × List Char) :=
  let hexadecimal : Option (List Char × List Char) :=
    match text with
    | '0' :: x :: rest =>
      let figures := rest.takeWhile isHexDigit
      if (x = 'x' || x = 'X') && !figures.isEmpty then
        some ('0' :: x :: figures, rest.dropWhile isHexDigit)
      else none
    | _ => none
  hexadecimal <|> decimal? text <|>
    (word? "Infinity".toList text).map ("Infinity".toList, ·) <|>
    (word? "NaN".toList text).map ("NaN".toList, ·)

/-- A number, as it is written. -/
def number? (text : List Char) : Option (List Char × List Char) :=
  match text with
  | '+' :: rest => (unsigned? rest).map fun (n, rest) => ('+' :: n, rest)
  | '-' :: rest => (unsigned? rest).map fun (n, rest) => ('-' :: n, rest)
  | _ => unsigned? text

/-- A value that is neither a list nor an object. -/
def simple? (text : List Char) : Option (Value × List Char) :=
  (word? "null".toList text).map (.null, ·) <|>
    (word? "true".toList text).map (.bool true, ·) <|>
    (word? "false".toList text).map (.bool false, ·) <|>
    (string? text).map (fun (s, rest) => (.text text.tail.head? s, rest)) <|>
    (number? text).map (fun (n, rest) => (.number n, rest))

mutual

/-- A value at the start of a text. -/
def valueWithin : Nat → List Char → Option (Value × List Char)
  | 0, _ => none
  | fuel + 1, text =>
    match text with
    | '[' :: inner =>
      match skip inner with
      | ']' :: rest => some (.list inner.head? [], rest)
      | rest => do
        let (items, rest) ← itemsWithin fuel rest
        return (.list inner.head? items, rest)
    | '\x7b' :: inner =>
      match skip inner with
      | '\x7d' :: rest => some (.object inner.head? [], rest)
      | rest => do
        let (members, rest) ← membersWithin fuel rest
        return (.object inner.head? members, rest)
    | _ => simple? text

/-- One item or more, and the end of their list. -/
def itemsWithin : Nat → List Char → Option (List Value × List Char)
  | 0, _ => none
  | fuel + 1, text => do
    let (item, rest) ← valueWithin fuel text
    match skip rest with
    | ']' :: rest => return ([item], rest)
    | ',' :: rest =>
      match skip rest with
      | ']' :: rest => return ([item], rest)
      | rest =>
        let (items, rest) ← itemsWithin fuel rest
        return (item :: items, rest)
    | _ => none

/-- One member or more, and the end of their object. -/
def membersWithin : Nat → List Char → Option (List (Literal × Value) × List Char)
  | 0, _ => none
  | fuel + 1, text => do
    let (key, rest) ← key? text
    let rest ← word? [':'] (skip rest)
    let (value, rest) ← valueWithin fuel (skip rest)
    match skip rest with
    | '\x7d' :: rest => return ([(key, value)], rest)
    | ',' :: rest =>
      match skip rest with
      | '\x7d' :: rest => return ([(key, value)], rest)
      | rest =>
        let (members, rest) ← membersWithin fuel rest
        return ((key, value) :: members, rest)
    | _ => none

end

/-- The value that a text holds. -/
def Value.ofString? (text : String) : Option Value := do
  let start := skip text.toList
  let (value, rest) ← valueWithin (start.length + 1) start
  if (skip rest).isEmpty then some value else none

end GraphFolding.Json5
