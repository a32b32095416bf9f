/-
Colours as they are written.

The channels of a colour are cut out of a text by bytes.  What is meant is a hash sign and six
digits of base 16; what is read is said here, for all texts:

* `Colour.channel?_eq_some_iff` — a channel is two digits, or a plus sign and one;
* `Colour.ofString_eq_some_iff` — the texts that stand for a colour: `Spells`;
* `Colour.ofString_eq_error_iff` — those in which a channel would end inside a character: `Cuts`;
* `Colour.ofString_eq_none_iff` — all others;
* `Colour.IsExact` — what it is to be read as six digits are meant to be;
* `Colour.spells_isPair_iff` — six digits are three channels without a plus sign.
-/
import GraphFolding.Colour
import Mathlib.Data.String.Basic
import Mathlib.Tactic.IntervalCases
namespace GraphFolding

namespace Colour

/-! ### Digits -/

/-- A digit of base 16, in either case, and its value. -/
def IsDigit (c : Char) (value : Nat) : Prop :=
  value < 16 ∧ (c = value.digitChar ∨ c = value.digitChar.toUpper)

theorem val_toLower {c : Char} (h : c.val ≥ 'A'.val ∧ c.val ≤ 'Z'.val) :
    c.toLower.val = c.val + ('a'.val - 'A'.val) := by
  delta Char.toLower
  rw [dif_pos h]

theorem val_toUpper {c : Char} (h : 'a'.val ≤ c.val ∧ c.val ≤ 'z'.val) :
    c.toUpper.val = c.val + ('A'.val - 'a'.val) := by
  delta Char.toUpper
  rw [dif_pos h]

theorem toUpper_toLower_or (c : Char) : c.toLower = c ∨ c.toLower.toUpper = c := by
  by_cases h : c.val ≥ 'A'.val ∧ c.val ≤ 'Z'.val
  · right
    have hrange : 'a'.val ≤ c.toLower.val ∧ c.toLower.val ≤ 'z'.val := by
      rw [val_toLower h]
      obtain ⟨h₁, h₂⟩ := h
      simp only [UInt32.le_iff_toNat_le, UInt32.toNat_add, ge_iff_le] at *
      simp at *
      omega
    have hback : ('a'.val - 'A'.val) + ('A'.val - 'a'.val) = 0 := rfl
    refine Char.ext ?_
    rw [val_toUpper hrange, val_toLower h, UInt32.add_assoc, hback, UInt32.add_zero]
  · exact .inl (dif_neg h)

theorem digit?_eq_some_iff {c : Char} {value : Nat} :
    digit? c = some value ↔ IsDigit c value := by
  constructor
  · intro h
    obtain ⟨hlt, hget, -⟩ := List.idxOf?_eq_some_iff.mp h
    have hdigit : c.toLower = value.digitChar := by
      rw [← hget]
      have hlt' : value < 16 := hlt
      interval_cases value <;> rfl
    refine ⟨hlt, ?_⟩
    rw [← hdigit]
    exact (toUpper_toLower_or c).imp Eq.symm Eq.symm
  · rintro ⟨hlt, rfl | rfl⟩
    · interval_cases value <;> rfl
    · interval_cases value <;> rfl

/-! ### Channels -/

/-- Two digits of base 16 and the channel that they stand for. -/
def IsPair (first second : Char) (channel : UInt8) : Prop :=
  ∃ high low, IsDigit first high ∧ IsDigit second low ∧ channel = UInt8.ofNat (16 * high + low)

/-- A plus sign with a digit of base 16, and the channel that they stand for. -/
def IsSigned (first second : Char) (channel : UInt8) : Prop :=
  first = '+' ∧ ∃ low, IsDigit second low ∧ channel = UInt8.ofNat low

theorem not_isDigit_plus (value : Nat) : ¬IsDigit '+' value := by
  rintro ⟨hlt, h | h⟩
  · interval_cases value <;> exact absurd h (by decide)
  · interval_cases value <;> exact absurd h (by decide)

theorem utf8Size_of_isDigit {c : Char} {value : Nat} (h : IsDigit c value) : c.utf8Size = 1 := by
  obtain ⟨hlt, rfl | rfl⟩ := h
  · interval_cases value <;> rfl
  · interval_cases value <;> rfl

theorem channel?_eq_some_iff {first second : Char} {channel : UInt8} :
    channel? first second = some channel ↔
      IsPair first second channel ∨ IsSigned first second channel := by
  by_cases hplus : first = '+'
  · subst hplus
    have hpair : ¬IsPair '+' second channel := fun ⟨high, _, h, _⟩ => not_isDigit_plus high h
    rw [channel?, if_pos rfl, Option.map_eq_some_iff]
    simp only [hpair, false_or, IsSigned, true_and, digit?_eq_some_iff, @eq_comm _ channel]
  · have hsigned : ¬IsSigned first second channel := fun h => hplus h.1
    rw [channel?, if_neg hplus]
    simp only [hsigned, or_false, IsPair, ← digit?_eq_some_iff, Option.bind_eq_bind,
      Option.bind_eq_some_iff, Option.pure_def, Option.some_inj]
    exact ⟨fun ⟨high, hhigh, low, hlow, h⟩ => ⟨high, low, hhigh, hlow, h.symm⟩,
      fun ⟨high, low, hhigh, hlow, h⟩ => ⟨high, hhigh, low, hlow, h.symm⟩⟩

/-- The two characters of a channel are one byte each. -/
theorem utf8Size_of_channel? {first second : Char} {channel : UInt8}
    (h : channel? first second = some channel) : first.utf8Size = 1 ∧ second.utf8Size = 1 := by
  rcases channel?_eq_some_iff.mp h with ⟨high, low, hhigh, hlow, -⟩ | ⟨rfl, low, hlow, -⟩
  · exact ⟨utf8Size_of_isDigit hhigh, utf8Size_of_isDigit hlow⟩
  · exact ⟨rfl, utf8Size_of_isDigit hlow⟩

/-! ### Cuts -/

/-- Whether a text can be parted after a number of bytes. -/
def IsBoundary (bytes : Nat) (text : List Char) : Prop :=
  ∃ start rest, text = start ++ rest ∧ String.utf8Len start = bytes

theorem isBoundary_zero (text : List Char) : IsBoundary 0 text := ⟨[], text, rfl, rfl⟩

theorem isBoundary_utf8Len (text : List Char) : IsBoundary (String.utf8Len text) text :=
  ⟨text, [], (List.append_nil text).symm, rfl⟩

theorem isBoundary_cons_iff {bytes : Nat} (hbytes : bytes ≠ 0) {c : Char} {text : List Char} :
    IsBoundary bytes (c :: text) ↔
      c.utf8Size ≤ bytes ∧ IsBoundary (bytes - c.utf8Size) text := by
  constructor
  · rintro ⟨start, rest, htext, hlength⟩
    rcases start with _ | ⟨first, start⟩
    · exact absurd hlength.symm hbytes
    · obtain ⟨rfl, rfl⟩ := List.cons.inj htext
      rw [String.utf8Len_cons] at hlength
      exact ⟨by omega, start, rest, rfl, by omega⟩
  · rintro ⟨hle, start, rest, rfl, hlength⟩
    exact ⟨c :: start, rest, rfl, by rw [String.utf8Len_cons]; omega⟩

theorem takeChannel_eq_some_iff {text rest : List Char} {channel : UInt8} :
    takeChannel text = .ok (some (channel, rest)) ↔
      ∃ first second, text = first :: second :: rest ∧ channel? first second = some channel := by
  constructor
  · intro h
    rcases text with _ | ⟨first, _ | ⟨second, text⟩⟩
    · simp [takeChannel] at h
    · simp only [takeChannel] at h
      split_ifs at h <;> simp at h
    · simp only [takeChannel] at h
      split_ifs at h
      · simp at h
      · obtain ⟨x, hx, hpair⟩ := Option.map_eq_some_iff.mp (Except.ok.inj h)
        obtain ⟨rfl, rfl⟩ := Prod.mk.inj hpair
        exact ⟨first, second, rfl, hx⟩
  · rintro ⟨first, second, rfl, hchannel⟩
    obtain ⟨hfirst, hsecond⟩ := utf8Size_of_channel? hchannel
    simp [takeChannel, hfirst, hsecond, hchannel]

/-- A channel is cut out of a text of two bytes or more exactly if the text can be parted after
two bytes. -/
theorem takeChannel_eq_error_iff {text : List Char} (htext : 2 ≤ String.utf8Len text)
    (f : ColourFault) : takeChannel text = .error f ↔ ¬IsBoundary 2 text := by
  cases f
  rcases text with _ | ⟨first, rest⟩
  · simp at htext
  · rw [String.utf8Len_cons] at htext
    have hpos := first.utf8Size_pos
    rw [isBoundary_cons_iff (by decide)]
    -- Two bytes are a character of two, or two of one each.
    by_cases htwo : first.utf8Size = 2
    · simp [takeChannel, htwo, isBoundary_zero]
    by_cases hone : first.utf8Size = 1
    · rcases rest with _ | ⟨second, rest⟩
      · simp [hone] at htext
      · have hpos' := second.utf8Size_pos
        rw [hone, isBoundary_cons_iff (by decide)]
        by_cases hsecond : second.utf8Size = 1
        · simp [takeChannel, hone, hsecond, isBoundary_zero]
        · have hmany : ¬second.utf8Size ≤ 1 := by omega
          simp [takeChannel, hone, hsecond, hmany]
    · have hmany : ¬first.utf8Size ≤ 2 := by omega
      simp [takeChannel, htwo, hone, hmany]

theorem takeChannels_succ (n : Nat) (text : List Char) :
    takeChannels (n + 1) text = takeChannel text >>= fun taken =>
      match taken with
      | none => .ok none
      | some (channel, rest) => takeChannels n rest >>= fun more =>
        .ok (more.map (channel :: ·)) :=
  rfl

theorem takeChannels_succ_eq_some_iff {n : Nat} {text : List Char} {channels : List UInt8} :
    takeChannels (n + 1) text = .ok (some channels) ↔
      ∃ channel rest more, takeChannel text = .ok (some (channel, rest)) ∧
        takeChannels n rest = .ok (some more) ∧ channels = channel :: more := by
  rw [takeChannels_succ]
  rcases takeChannel text with f | _ | ⟨channel, rest⟩
  · simp [bind, Except.bind]
  · simp [bind, Except.bind]
  · rcases hmore : takeChannels n rest with f | _ | more
    · simp [bind, Except.bind, hmore]
    · simp [bind, Except.bind, hmore]
    · simp [bind, Except.bind, hmore, eq_comm]

theorem takeChannels_succ_eq_error_iff {n : Nat} {text : List Char} {f : ColourFault} :
    takeChannels (n + 1) text = .error f ↔ takeChannel text = .error f ∨
      ∃ channel rest, takeChannel text = .ok (some (channel, rest)) ∧
        takeChannels n rest = .error f := by
  rw [takeChannels_succ]
  rcases takeChannel text with f | _ | ⟨channel, rest⟩
  · simp [bind, Except.bind]
  · simp [bind, Except.bind]
  · rcases hmore : takeChannels n rest with f | more
    · simp [bind, Except.bind, hmore]
    · simp [bind, Except.bind, hmore]

/-! ### Colours -/

/-- Two characters and the channel that they stand for: two digits, or a plus sign and one. -/
def IsChannel (first second : Char) (channel : UInt8) : Prop :=
  IsPair first second channel ∨ IsSigned first second channel

/-- Whether a text is a hash sign and three channels, those of a colour. -/
def Spells (IsPart : Char → Char → UInt8 → Prop) (text : String) (colour : Colour) : Prop :=
  ∃ a b c d e f, text.toList = ['#', a, b, c, d, e, f] ∧ IsPart a b colour.red ∧
    IsPart c d colour.green ∧ IsPart e f colour.blue

/-- Whether one of the channels of a text would end inside a character: six bytes follow the hash
sign, and the first channel ends so, or it is one and the second channel ends so. -/
def Cuts (text : String) : Prop :=
  ∃ rest, text.toList = '#' :: rest ∧ String.utf8Len rest = 6 ∧
    (¬IsBoundary 2 rest ∨ (∃ first second more channel, rest = first :: second :: more ∧
      IsChannel first second channel) ∧ ¬IsBoundary 4 rest)

theorem takeChannels_three_eq_some_iff {text : List Char} {channels : List UInt8} :
    takeChannels 3 text = .ok (some channels) ↔
      ∃ a b c d e f rest red green blue, text = a :: b :: c :: d :: e :: f :: rest ∧
        channels = [red, green, blue] ∧ IsChannel a b red ∧ IsChannel c d green ∧
        IsChannel e f blue := by
  simp only [takeChannels_succ_eq_some_iff, takeChannel_eq_some_iff, channel?_eq_some_iff,
    ← IsChannel.eq_def]
  constructor
  · rintro ⟨red, _, _, ⟨a, b, rfl, hred⟩, ⟨green, _, _, ⟨c, d, rfl, hgreen⟩, ⟨blue, rest, _,
      ⟨e, f, rfl, hblue⟩, hnone, rfl⟩, rfl⟩, rfl⟩
    cases hnone
    exact ⟨a, b, c, d, e, f, rest, red, green, blue, rfl, rfl, hred, hgreen, hblue⟩
  · rintro ⟨a, b, c, d, e, f, rest, red, green, blue, rfl, rfl, hred, hgreen, hblue⟩
    exact ⟨red, _, _, ⟨a, b, rfl, hred⟩, ⟨green, _, _, ⟨c, d, rfl, hgreen⟩, ⟨blue, rest, [],
      ⟨e, f, rfl, hblue⟩, rfl, rfl⟩, rfl⟩, rfl⟩

theorem utf8Size_of_isChannel {first second : Char} {channel : UInt8}
    (h : IsChannel first second channel) : first.utf8Size = 1 ∧ second.utf8Size = 1 :=
  utf8Size_of_channel? (channel?_eq_some_iff.mpr h)

theorem utf8Len_channels {a b c d e f : Char} {red green blue : UInt8} (hred : IsChannel a b red)
    (hgreen : IsChannel c d green) (hblue : IsChannel e f blue) (rest : List Char) :
    String.utf8Len (a :: b :: c :: d :: e :: f :: rest) = String.utf8Len rest + 6 := by
  obtain ⟨ha, hb⟩ := utf8Size_of_isChannel hred
  obtain ⟨hc, hd⟩ := utf8Size_of_isChannel hgreen
  obtain ⟨he, hf⟩ := utf8Size_of_isChannel hblue
  simp only [String.utf8Len_cons, ha, hb, hc, hd, he, hf]

/-- Where two bytes are left, a last channel can be cut. -/
theorem takeChannels_one_ne_error {text : List Char} (htext : String.utf8Len text = 2)
    (f : ColourFault) : takeChannels 1 text ≠ .error f := by
  intro herror
  rcases takeChannels_succ_eq_error_iff.mp herror with h | ⟨_, _, _, h⟩
  · exact (takeChannel_eq_error_iff (by omega) f).mp h (htext ▸ isBoundary_utf8Len text)
  · exact absurd h (by simp [takeChannels])

/-- Where four bytes are left, cutting two channels fails exactly if the first would end inside a
character. -/
theorem takeChannels_two_eq_error_iff {text : List Char} (htext : String.utf8Len text = 4)
    (f : ColourFault) : takeChannels 2 text = .error f ↔ ¬IsBoundary 2 text := by
  rw [takeChannels_succ_eq_error_iff, takeChannel_eq_error_iff (by omega)]
  refine or_iff_left ?_
  rintro ⟨channel, rest, htaken, herror⟩
  obtain ⟨first, second, rfl, hchannel⟩ := takeChannel_eq_some_iff.mp htaken
  obtain ⟨hfirst, hsecond⟩ := utf8Size_of_channel? hchannel
  simp only [String.utf8Len_cons, hfirst, hsecond] at htext
  exact takeChannels_one_ne_error (by omega) f herror

/-- Cutting channels fails exactly where the first or, after a first one, the second would end
inside a character: two bytes are left for the third. -/
theorem takeChannels_three_eq_error_iff {text : List Char} (htext : String.utf8Len text = 6)
    (f : ColourFault) : takeChannels 3 text = .error f ↔
      ¬IsBoundary 2 text ∨ (∃ first second more channel, text = first :: second :: more ∧
        IsChannel first second channel) ∧ ¬IsBoundary 4 text := by
  rw [takeChannels_succ_eq_error_iff, takeChannel_eq_error_iff (by omega)]
  refine or_congr_right ?_
  simp only [takeChannel_eq_some_iff, channel?_eq_some_iff, ← IsChannel.eq_def]
  have hlater : ∀ {first second : Char} {more : List Char} {channel : UInt8},
      text = first :: second :: more → IsChannel first second channel →
      (takeChannels 2 more = .error f ↔ ¬IsBoundary 4 text) := by
    rintro first second more channel rfl hchannel
    obtain ⟨hfirst, hsecond⟩ := utf8Size_of_isChannel hchannel
    simp only [String.utf8Len_cons, hfirst, hsecond] at htext
    have hfour : IsBoundary 4 (first :: second :: more) ↔ IsBoundary 2 more := by
      simp [isBoundary_cons_iff, hfirst, hsecond]
    rw [takeChannels_two_eq_error_iff (by omega), hfour]
  constructor
  · rintro ⟨channel, more, ⟨first, second, htext, hchannel⟩, herror⟩
    exact ⟨⟨first, second, more, channel, htext, hchannel⟩, (hlater htext hchannel).mp herror⟩
  · rintro ⟨⟨first, second, more, channel, htext, hchannel⟩, hboundary⟩
    exact ⟨channel, more, ⟨first, second, htext, hchannel⟩,
      (hlater htext hchannel).mpr hboundary⟩

theorem ofString_of_not_hash {text : String} (h : ∀ rest, text.toList ≠ '#' :: rest) :
    ofString text = .ok none := by
  unfold ofString
  split
  · rename_i rest heq
    exact absurd heq (h rest)
  · rfl

theorem ofString_of_hash {text : String} {rest : List Char} (h : text.toList = '#' :: rest) :
    ofString text = if String.utf8Len rest ≠ 6 then .ok none else
      (takeChannels 3 rest).map fun channels? => match channels? with
        | some [red, green, blue] => some ⟨red, green, blue⟩
        | _ => none := by
  rw [ofString, h]
  simp only [String.utf8ByteSize_ofList]
  split_ifs
  · rfl
  · rcases takeChannels 3 rest with f | channels?
    · rfl
    · rcases channels? with _ | (_ | ⟨red, _ | ⟨green, _ | ⟨blue, _ | ⟨more, channels⟩⟩⟩⟩) <;> rfl

/-- The texts that stand for a colour. -/
theorem ofString_eq_some_iff {text : String} {colour : Colour} :
    ofString text = .ok (some colour) ↔ Spells IsChannel text colour := by
  by_cases h : ∃ rest, text.toList = '#' :: rest
  · obtain ⟨rest, hrest⟩ := h
    rw [ofString_of_hash hrest]
    constructor
    · intro heq
      split_ifs at heq with hlength
      · simp at heq
      · rcases htaken : takeChannels 3 rest with f | _ | channels
        · simp [htaken, Except.map] at heq
        · simp [htaken, Except.map] at heq
        · obtain ⟨a, b, c, d, e, f, more, red, green, blue, rfl, rfl, hred, hgreen, hblue⟩ :=
            takeChannels_three_eq_some_iff.mp htaken
          obtain rfl : (⟨red, green, blue⟩ : Colour) = colour := by
            simpa [htaken, Except.map] using heq
          have hmore : more = [] := by
            rw [utf8Len_channels hred hgreen hblue] at hlength
            exact String.utf8Len_eq_zero.mp (by omega)
          exact ⟨a, b, c, d, e, f, by rw [hrest, hmore], hred, hgreen, hblue⟩
    · rintro ⟨a, b, c, d, e, f, htext, hred, hgreen, hblue⟩
      obtain ⟨-, rfl⟩ := List.cons.inj (hrest.symm.trans htext)
      have hlength : String.utf8Len [a, b, c, d, e, f] = 6 :=
        utf8Len_channels hred hgreen hblue []
      have htaken := takeChannels_three_eq_some_iff.mpr
        ⟨a, b, c, d, e, f, [], _, _, _, rfl, rfl, hred, hgreen, hblue⟩
      rw [if_neg (not_not.mpr hlength), htaken]
      rfl
  · rw [ofString_of_not_hash fun rest hrest => h ⟨rest, hrest⟩]
    constructor
    · intro heq
      simp at heq
    · rintro ⟨a, b, c, d, e, f, htext, -⟩
      exact absurd ⟨_, htext⟩ h

/-- The texts whose channels cannot be cut. -/
theorem ofString_eq_error_iff {text : String} {f : ColourFault} :
    ofString text = .error f ↔ Cuts text := by
  by_cases h : ∃ rest, text.toList = '#' :: rest
  · obtain ⟨rest, hrest⟩ := h
    rw [ofString_of_hash hrest]
    have hcuts : Cuts text ↔ String.utf8Len rest = 6 ∧
        (¬IsBoundary 2 rest ∨ (∃ first second more channel, rest = first :: second :: more ∧
          IsChannel first second channel) ∧ ¬IsBoundary 4 rest) := by
      constructor
      · rintro ⟨rest', hrest', hcut⟩
        obtain ⟨-, rfl⟩ := List.cons.inj (hrest.symm.trans hrest')
        exact hcut
      · exact fun hcut => ⟨rest, hrest, hcut⟩
    rw [hcuts]
    by_cases hlength : String.utf8Len rest = 6
    · rw [if_neg (not_not.mpr hlength), ← takeChannels_three_eq_error_iff hlength f]
      rcases takeChannels 3 rest with f' | channels? <;> simp [Except.map, hlength]
    · simp [hlength]
  · rw [ofString_of_not_hash fun rest hrest => h ⟨rest, hrest⟩]
    simp only [reduceCtorEq, false_iff]
    exact fun ⟨rest, hrest, _⟩ => h ⟨rest, hrest⟩

/-- The other texts stand for no colour. -/
theorem ofString_eq_none_iff {text : String} : ofString text = .ok none ↔
    (∀ f, ofString text ≠ .error f) ∧ ∀ colour, ¬Spells IsChannel text colour := by
  constructor
  · intro h
    refine ⟨fun f => by simp [h], fun colour hspells => ?_⟩
    have hcolour := ofString_eq_some_iff.mpr hspells
    simp [h] at hcolour
  · rintro ⟨hcut, hno⟩
    rcases h : ofString text with f | _ | colour
    · exact absurd h (hcut f)
    · rfl
    · exact absurd (ofString_eq_some_iff.mp h) (hno colour)

/-! ### Six digits -/

/-- Whether a text is read as six digits are meant to be: it stands for a colour exactly if it is a
hash sign and six digits, and for none otherwise. -/
def IsExact (text : String) : Prop :=
  (∀ colour, ofString text = .ok (some colour) ↔ Spells IsPair text colour) ∧
    ((∀ colour, ¬Spells IsPair text colour) → ofString text = .ok none)

theorem Spells.mono {P Q : Char → Char → UInt8 → Prop}
    (h : ∀ first second channel, P first second channel → Q first second channel) {text : String}
    {colour : Colour} : Spells P text colour → Spells Q text colour :=
  fun ⟨a, b, c, d, e, f, htext, hred, hgreen, hblue⟩ =>
    ⟨a, b, c, d, e, f, htext, h _ _ _ hred, h _ _ _ hgreen, h _ _ _ hblue⟩

theorem IsPair.ne_plus {first second : Char} {channel : UInt8} (h : IsPair first second channel) :
    first ≠ '+' ∧ second ≠ '+' := by
  obtain ⟨high, low, hhigh, hlow, -⟩ := h
  exact ⟨fun heq => not_isDigit_plus high (heq ▸ hhigh),
    fun heq => not_isDigit_plus low (heq ▸ hlow)⟩

theorem IsChannel.isPair_or {first second : Char} {channel : UInt8}
    (h : IsChannel first second channel) : IsPair first second channel ∨ first = '+' :=
  h.imp_right And.left

/-- Six digits hold no plus sign, and three channels without one are six digits. -/
theorem spells_isPair_iff {text : String} {colour : Colour} :
    Spells IsPair text colour ↔ Spells IsChannel text colour ∧ '+' ∉ text.toList := by
  constructor
  · intro h
    refine ⟨h.mono fun _ _ _ => .inl, ?_⟩
    obtain ⟨a, b, c, d, e, f, htext, hred, hgreen, hblue⟩ := h
    simp [htext, hred.ne_plus.1.symm, hred.ne_plus.2.symm, hgreen.ne_plus.1.symm,
      hgreen.ne_plus.2.symm, hblue.ne_plus.1.symm, hblue.ne_plus.2.symm]
  · rintro ⟨⟨a, b, c, d, e, f, htext, hred, hgreen, hblue⟩, hplus⟩
    simp only [htext, List.mem_cons, not_or] at hplus
    obtain ⟨-, ha, -, hc, -, he, -⟩ := hplus
    exact ⟨a, b, c, d, e, f, htext, hred.isPair_or.resolve_right fun h => ha h.symm,
      hgreen.isPair_or.resolve_right fun h => hc h.symm,
      hblue.isPair_or.resolve_right fun h => he h.symm⟩

end Colour
end GraphFolding
