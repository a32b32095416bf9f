/-
The character classes of markup: blanks, the characters a document may hold, and the
characters of names.

* `isBlank`, `isAllowed` — blanks and allowed characters;
* `isNameStart`, `isNameChar` — the first and the later characters of a name.
-/
namespace GraphFolding.Xml

/-- The blanks of markup. -/
def isBlank (c : Char) : Bool :=
  c = ' ' || c = '\t' || c = '\n' || c = '\r'

/-- The characters that a document may hold. -/
def isAllowed (c : Char) : Bool :=
  if c.toNat < 0x20 then isBlank c else c.toNat ≠ 0xfffe && c.toNat ≠ 0xffff

/-- Whether a code point lies between two others, both included. -/
def between (low high : Nat) (c : Char) : Bool :=
  low ≤ c.toNat && c.toNat ≤ high

/-- The characters beyond ASCII that may begin a name. -/
def isExtendedNameStart (c : Char) : Bool :=
  between 0xc0 0xd6 c || between 0xd8 0xf6 c || between 0xf8 0x2ff c ||
  between 0x370 0x37d c || between 0x37f 0x1fff c || between 0x200c 0x200d c ||
  between 0x2070 0x218f c || between 0x2c00 0x2fef c || between 0x3001 0xd7ff c ||
  between 0xf900 0xfdcf c || between 0xfdf0 0xfffd c || between 0x10000 0xeffff c

/-- The characters that may begin a name. -/
def isNameStart (c : Char) : Bool :=
  if c.toNat ≤ 0x80 then c.isAlpha || c = ':' || c = '_' else isExtendedNameStart c

/-- The characters that may stand in a name. -/
def isNameChar (c : Char) : Bool :=
  if c.toNat ≤ 0x80 then c.isAlphanum || c = ':' || c = '_' || c = '-' || c = '.'
  else isExtendedNameStart c || c.toNat = 0xb7 || between 0x300 0x36f c ||
    between 0x203f 0x2040 c

/-- The characters that may stand in one of the two parts of a qualified name. -/
def isNamePartChar (c : Char) : Bool :=
  isNameChar c && c ≠ ':'

end GraphFolding.Xml
