/-
JSON texts by their grammar.

A text is written from a tree, with blanks wherever the grammar allows them.  A tree keeps numbers
as they are written, and strings as 16-bit units, which need not be paired:

* `Json.Tree` — a value taken apart;
* `Json.Written` — the texts of values, of the items of lists and of the members of objects;
* `Json.IsObject` — the texts of objects, with blanks around them.
-/
import GraphFolding.Json.Text
import GraphFolding.Proofs.SurrogatePairs
namespace GraphFolding.Json

/-! ### Trees -/

/-- A value taken apart: numbers as they are written, strings as units, the members of an object
with their order and their repeats. -/
inductive Tree where
  | null
  | bool (b : Bool)
  | number (literal : List Char)
  | text (us : List UInt16)
  | list (items : List Tree)
  | object (members : List (List UInt16 × Tree))
  deriving Repr

/-- What is read as a member of an object: its name and its value. -/
abbrev Member : Type := List UInt16 × Tree

/-! ### Texts -/

/-- Blanks, or none. -/
def IsBlanks (text : List Char) : Prop := ∀ c ∈ text, isBlank c = true

theorem isBlanks_nil : IsBlanks [] := by simp [IsBlanks]

/-- Digits, one or more. -/
def IsDigits (text : List Char) : Prop := text ≠ [] ∧ ∀ c ∈ text, isDigit c = true

/-- The digits before the point: a zero, or digits that do not begin with one. -/
def IsWhole (text : List Char) : Prop := text = ['0'] ∨ (IsDigits text ∧ text.head? ≠ some '0')

/-- A point and digits, or nothing. -/
def IsFraction (text : List Char) : Prop :=
  text = [] ∨ ∃ digits, text = '.' :: digits ∧ IsDigits digits

/-- The mark of an exponent, a sign or none and digits, or nothing. -/
def IsExponent (text : List Char) : Prop :=
  text = [] ∨ ∃ mark sign digits, text = mark :: (sign ++ digits) ∧ (mark = 'e' ∨ mark = 'E') ∧
    (sign = [] ∨ sign = ['+'] ∨ sign = ['-']) ∧ IsDigits digits

/-- A number without a sign. -/
def IsUnsigned (text : List Char) : Prop :=
  ∃ whole fraction exponent, text = whole ++ (fraction ++ exponent) ∧ IsWhole whole ∧
    IsFraction fraction ∧ IsExponent exponent

/-- A number. -/
def IsNumber (text : List Char) : Prop :=
  IsUnsigned text ∨ ∃ unsigned, text = '-' :: unsigned ∧ IsUnsigned unsigned

/-- What stands between the quotes of a string, and the units that it stands for. -/
inductive StringBody : List UInt16 → List Char → Prop where
  | nil : StringBody [] []
  | plain {c : Char} {us : List UInt16} {cs : List Char} : c ≠ '\x22' → c ≠ '\\' →
      0x20 ≤ c.toNat → StringBody us cs → StringBody (unitsOf c ++ us) (c :: cs)
  | letter {letter c : Char} {us : List UInt16} {cs : List Char} :
      (letter, c) ∈ Cursor.letterEscapes → StringBody us cs →
      StringBody (unitsOf c ++ us) ('\\' :: letter :: cs)
  | numbered {c₁ c₂ c₃ c₄ : Char} {d₁ d₂ d₃ d₄ : Nat} {us : List UInt16} {cs : List Char} :
      Cursor.hexValue? c₁ = some d₁ → Cursor.hexValue? c₂ = some d₂ →
      Cursor.hexValue? c₃ = some d₃ → Cursor.hexValue? c₄ = some d₄ → StringBody us cs →
      StringBody (UInt16.ofNat (((d₁ * 16 + d₂) * 16 + d₃) * 16 + d₄) :: us)
        ('\\' :: 'u' :: c₁ :: c₂ :: c₃ :: c₄ :: cs)

/-- A string in its quotes. -/
def Quoted (us : List UInt16) (text : List Char) : Prop :=
  ∃ body, text = '\x22' :: (body ++ ['\x22']) ∧ StringBody us body

/-- What a text can be written from: a value, or items or members up to the bracket that closes
them, which may be the first ones or stand after others. -/
inductive Part where
  | value (t : Tree)
  | items (isFirst : Bool) (ts : List Tree)
  | members (isFirst : Bool) (ms : List Member)

/-- The comma that stands before all items or members but the first. -/
def comma (isFirst : Bool) : List Char := if isFirst then [] else [',']

/-- The texts of values, items and members. -/
inductive Written : Part → List Char → Prop where
  | null : Written (.value .null) ['n', 'u', 'l', 'l']
  | yes : Written (.value (.bool true)) ['t', 'r', 'u', 'e']
  | no : Written (.value (.bool false)) ['f', 'a', 'l', 's', 'e']
  | number {literal : List Char} : IsNumber literal → Written (.value (.number literal)) literal
  | text {us : List UInt16} {quoted : List Char} : Quoted us quoted →
      Written (.value (.text us)) quoted
  | list {ts : List Tree} {inner : List Char} : Written (.items true ts) inner →
      Written (.value (.list ts)) ('[' :: (inner ++ [']']))
  | object {ms : List Member} {inner : List Char} : Written (.members true ms) inner →
      Written (.value (.object ms)) ('\x7b' :: (inner ++ ['\x7d']))
  | noItem {isFirst : Bool} {blanks : List Char} : IsBlanks blanks →
      Written (.items isFirst []) blanks
  | item {isFirst : Bool} {t : Tree} {ts : List Tree} {before after value rest : List Char} :
      IsBlanks before → IsBlanks after → Written (.value t) value →
      Written (.items false ts) rest →
      Written (.items isFirst (t :: ts)) (before ++ (comma isFirst ++ (after ++ (value ++ rest))))
  | noMember {isFirst : Bool} {blanks : List Char} : IsBlanks blanks →
      Written (.members isFirst []) blanks
  | member {isFirst : Bool} {name : List UInt16} {t : Tree} {ms : List Member}
      {before after key beforeColon afterColon value rest : List Char} :
      IsBlanks before → IsBlanks after → Quoted name key → IsBlanks beforeColon →
      IsBlanks afterColon → Written (.value t) value → Written (.members false ms) rest →
      Written (.members isFirst ((name, t) :: ms)) (before ++ (comma isFirst ++ (after ++ (key ++
        (beforeColon ++ ':' :: (afterColon ++ (value ++ rest)))))))

/-- The texts of an object with some members, with blanks around it. -/
def IsObject (ms : List Member) (text : String) : Prop :=
  ∃ before inner after, text.toList = before ++ '\x7b' :: (inner ++ '\x7d' :: after) ∧
    IsBlanks before ∧ Written (.members true ms) inner ∧ IsBlanks after

/-! ### Texts without blanks -/

/-- Whether a character needs no escape. -/
def isPlain (c : Char) : Bool := c != '\x22' && c != '\\' && decide (0x20 ≤ c.toNat)

/-- Characters that need no escape stand for themselves. -/
theorem stringBody_plain {cs : List Char} (h : cs.all isPlain = true) :
    StringBody (cs.flatMap unitsOf) cs := by
  induction cs with
  | nil => exact .nil
  | cons c cs ih =>
    rw [List.all_cons, Bool.and_eq_true] at h
    obtain ⟨hplain, hrest⟩ := h
    simp only [isPlain, Bool.and_eq_true, bne_iff_ne, decide_eq_true_eq] at hplain
    exact .plain hplain.1.1 hplain.1.2 hplain.2 (ih hrest)

theorem quoted_units (text : String) (h : text.toList.all isPlain = true) :
    Quoted (units text) ('\x22' :: (text.toList ++ ['\x22'])) :=
  ⟨text.toList, rfl, stringBody_plain h⟩

/-- Units as numbered escapes. -/
def escaped (us : List UInt16) : List Char :=
  us.flatMap fun u => ['\\', 'u', (u.toNat / 4096).digitChar, (u.toNat / 256 % 16).digitChar,
    (u.toNat / 16 % 16).digitChar, (u.toNat % 16).digitChar]

theorem hexValue?_digitChar {n : Nat} (h : n < 16) : Cursor.hexValue? n.digitChar = some n := by
  revert h
  revert n
  decide

/-- Units of any kind can be written. -/
theorem stringBody_escaped (us : List UInt16) : StringBody us (escaped us) := by
  induction us with
  | nil => exact .nil
  | cons u us ih =>
    have hlt := u.toNat_lt
    have hdigits : ((u.toNat / 4096 * 16 + u.toNat / 256 % 16) * 16 + u.toNat / 16 % 16) * 16 +
        u.toNat % 16 = u.toNat := by omega
    have hbody := StringBody.numbered (hexValue?_digitChar (n := u.toNat / 4096) (by omega))
      (hexValue?_digitChar (n := u.toNat / 256 % 16) (by omega))
      (hexValue?_digitChar (n := u.toNat / 16 % 16) (by omega))
      (hexValue?_digitChar (n := u.toNat % 16) (by omega)) ih
    rwa [hdigits, UInt16.ofNat_toNat] at hbody

theorem quoted_escaped (us : List UInt16) :
    Quoted us ('\x22' :: (escaped us ++ ['\x22'])) :=
  ⟨escaped us, rfl, stringBody_escaped us⟩

theorem written_members_nil (isFirst : Bool) : Written (.members isFirst []) [] :=
  .noMember isBlanks_nil

theorem written_members_cons (isFirst : Bool) {name : List UInt16} {t : Tree} {ms : List Member}
    {key value rest : List Char} (hkey : Quoted name key) (hvalue : Written (.value t) value)
    (hrest : Written (.members false ms) rest) :
    Written (.members isFirst ((name, t) :: ms))
      (comma isFirst ++ (key ++ ':' :: (value ++ rest))) :=
  .member isBlanks_nil isBlanks_nil hkey isBlanks_nil isBlanks_nil hvalue hrest

theorem isObject_of_written {ms : List Member} {inner : List Char} {text : String}
    (h : Written (.members true ms) inner)
    (htext : text.toList = '\x7b' :: (inner ++ ['\x7d'])) : IsObject ms text :=
  ⟨[], inner, [], htext, isBlanks_nil, h, isBlanks_nil⟩

end GraphFolding.Json
