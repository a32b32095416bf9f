/-
Characters as 16-bit units.

Most characters are one unit, and the others are a pair of surrogates.  Units may hold surrogates
without a partner, and then stand for no text:

* `Json.unitsOf`, `Json.charsOf?` — a character as units, and the characters of units;
* `Json.textOf?_eq_some_iff` — the units of a text are all that stand for it.
-/
import Mathlib.Logic.Function.Basic
namespace GraphFolding.Json

/-- A character as 16-bit units. -/
def unitsOf (c : Char) : List UInt16 :=
  if c.toNat < 0x10000 then [UInt16.ofNat c.toNat]
  else [UInt16.ofNat (0xd800 + (c.toNat - 0x10000) / 0x400),
    UInt16.ofNat (0xdc00 + (c.toNat - 0x10000) % 0x400)]

/-- A text as 16-bit units. -/
def units (text : String) : List UInt16 := text.toList.flatMap unitsOf

/-- The character of a pair of surrogates. -/
def pairChar (lead trail : UInt16) : Char :=
  Char.ofNat ((lead.toNat - 0xd800) * 0x400 + (trail.toNat - 0xdc00) + 0x10000)

/-- Whether a unit is a surrogate. -/
def isSurrogate (u : UInt16) : Bool := 0xd800 ≤ u && u ≤ 0xdfff

/-- Whether a unit is a surrogate that leads a pair. -/
def isLead (u : UInt16) : Bool := 0xd800 ≤ u && u ≤ 0xdbff

/-- Whether a unit is a surrogate that ends a pair. -/
def isTrail (u : UInt16) : Bool := 0xdc00 ≤ u && u ≤ 0xdfff

/-- The characters that units stand for, if the surrogates among them are paired. -/
def charsOf? : List UInt16 → Option (List Char)
  | [] => some []
  | [u] => if isSurrogate u then none else some [Char.ofNat u.toNat]
  | u :: v :: rest =>
    if !isSurrogate u then (charsOf? (v :: rest)).map (Char.ofNat u.toNat :: ·)
    else if isLead u && isTrail v then (charsOf? rest).map (pairChar u v :: ·)
    else none

/-- The text that units stand for, if the surrogates among them are paired. -/
def textOf? (us : List UInt16) : Option String := (charsOf? us).map String.ofList

/-! ### Kinds of units -/

theorem charsOf?_cons {u : UInt16} (h : isSurrogate u = false) (rest : List UInt16) :
    charsOf? (u :: rest) = (charsOf? rest).map (Char.ofNat u.toNat :: ·) := by
  rcases rest with _ | ⟨v, rest⟩
  · simp [charsOf?, h]
  · simp [charsOf?, h]

/-- A surrogate without a partner. -/
theorem charsOf?_cons_of_isSurrogate {u : UInt16} (h : isSurrogate u = true)
    {rest : List UInt16} (hrest : isLead u = true → ∀ v ∈ rest.head?, isTrail v = false) :
    charsOf? (u :: rest) = none := by
  rcases rest with _ | ⟨v, rest⟩
  · simp [charsOf?, h]
  · have hpair : (isLead u && isTrail v) = false := by
      cases hu : isLead u with
      | false => rfl
      | true => rw [hrest hu v rfl]; rfl
    simp [charsOf?, h, hpair]

theorem isSurrogate_eq (u : UInt16) :
    isSurrogate u = decide (0xd800 ≤ u.toNat ∧ u.toNat ≤ 0xdfff) := by
  simp [isSurrogate, UInt16.le_iff_toNat_le]

theorem isLead_eq (u : UInt16) : isLead u = decide (0xd800 ≤ u.toNat ∧ u.toNat ≤ 0xdbff) := by
  simp [isLead, UInt16.le_iff_toNat_le]

theorem isTrail_eq (u : UInt16) : isTrail u = decide (0xdc00 ≤ u.toNat ∧ u.toNat ≤ 0xdfff) := by
  simp [isTrail, UInt16.le_iff_toNat_le]

theorem toNat_ofNat_of_lt {n : Nat} (h : n < 0x10000) : (UInt16.ofNat n).toNat = n := by
  rw [UInt16.toNat_ofNat', Nat.mod_eq_of_lt h]

/-! ### Characters and their units -/

/-- A character is one unit that is no surrogate, or a pair of surrogates. -/
theorem unitsOf_cases (c : Char) :
    (∃ u, unitsOf c = [u] ∧ isSurrogate u = false ∧ Char.ofNat u.toNat = c) ∨
    ∃ u v, unitsOf c = [u, v] ∧ isLead u = true ∧ isTrail v = true ∧ pairChar u v = c := by
  have hvalid : c.toNat < 0xd800 ∨ (0xdfff < c.toNat ∧ c.toNat < 0x110000) := c.valid
  by_cases h : c.toNat < 0x10000
  · refine .inl ⟨_, if_pos h, ?_, ?_⟩
    · rw [isSurrogate_eq, toNat_ofNat_of_lt h, decide_eq_false_iff_not]
      omega
    · rw [toNat_ofNat_of_lt h, Char.ofNat_toNat]
  · have hlead := toNat_ofNat_of_lt (n := 0xd800 + (c.toNat - 0x10000) / 0x400) (by omega)
    have htrail := toNat_ofNat_of_lt (n := 0xdc00 + (c.toNat - 0x10000) % 0x400) (by omega)
    refine .inr ⟨_, _, if_neg h, ?_, ?_, ?_⟩
    · rw [isLead_eq, hlead, decide_eq_true_eq]
      omega
    · rw [isTrail_eq, htrail, decide_eq_true_eq]
      omega
    · have hnat : (0xd800 + (c.toNat - 0x10000) / 0x400 - 0xd800) * 0x400 +
          (0xdc00 + (c.toNat - 0x10000) % 0x400 - 0xdc00) + 0x10000 = c.toNat := by omega
      rw [pairChar, hlead, htrail, hnat, Char.ofNat_toNat]

theorem isSurrogate_of_isLead {u : UInt16} (h : isLead u = true) : isSurrogate u = true := by
  rw [isLead_eq, decide_eq_true_eq] at h
  rw [isSurrogate_eq, decide_eq_true_eq]
  omega

theorem charsOf?_pair {u v : UInt16} (hu : isLead u = true) (hv : isTrail v = true)
    (rest : List UInt16) :
    charsOf? (u :: v :: rest) = (charsOf? rest).map (pairChar u v :: ·) := by
  simp [charsOf?, isSurrogate_of_isLead hu, hu, hv]

theorem charsOf?_unitsOf_append (c : Char) (us : List UInt16) :
    charsOf? (unitsOf c ++ us) = (charsOf? us).map (c :: ·) := by
  rcases unitsOf_cases c with ⟨u, hunits, hplain, rfl⟩ | ⟨u, v, hunits, hlead, htrail, rfl⟩
  · rw [hunits]
    exact charsOf?_cons hplain us
  · rw [hunits]
    exact charsOf?_pair hlead htrail us

theorem toNat_charOfNat {n : Nat} (h : n.isValidChar) : (Char.ofNat n).toNat = n := by
  rw [Char.ofNat, dif_pos h]
  rfl

/-- No character begins with a trailing surrogate. -/
theorem isTrail_head?_unitsOf (c : Char) (us : List UInt16) :
    ∀ v ∈ (unitsOf c ++ us).head?, isTrail v = false := by
  intro v hv
  rcases unitsOf_cases c with ⟨u, hunits, hplain, -⟩ | ⟨u, w, hunits, hlead, -, -⟩
  · obtain rfl : u = v := by simpa [hunits] using hv
    rw [isSurrogate_eq, decide_eq_false_iff_not] at hplain
    rw [isTrail_eq, decide_eq_false_iff_not]
    omega
  · obtain rfl : u = v := by simpa [hunits] using hv
    rw [isLead_eq, decide_eq_true_eq] at hlead
    rw [isTrail_eq, decide_eq_false_iff_not]
    omega

theorem unitsOf_ofNat {u : UInt16} (h : isSurrogate u = false) :
    unitsOf (Char.ofNat u.toNat) = [u] := by
  have hlt := u.toNat_lt
  rw [isSurrogate_eq, decide_eq_false_iff_not] at h
  have hnat : (Char.ofNat u.toNat).toNat = u.toNat :=
    toNat_charOfNat (by omega : u.toNat < 0xd800 ∨ (0xdfff < u.toNat ∧ u.toNat < 0x110000))
  rw [unitsOf, hnat, if_pos hlt, UInt16.ofNat_toNat]

theorem unitsOf_pairChar {u v : UInt16} (hu : isLead u = true) (hv : isTrail v = true) :
    unitsOf (pairChar u v) = [u, v] := by
  rw [isLead_eq, decide_eq_true_eq] at hu
  rw [isTrail_eq, decide_eq_true_eq] at hv
  have hnat : (pairChar u v).toNat =
      (u.toNat - 0xd800) * 0x400 + (v.toNat - 0xdc00) + 0x10000 := by
    refine toNat_charOfNat (.inr ⟨?_, ?_⟩)
    · omega
    · omega
  rw [unitsOf, hnat, if_neg (by omega)]
  have hlead : 0xd800 + ((u.toNat - 0xd800) * 0x400 + (v.toNat - 0xdc00) + 0x10000 - 0x10000) /
      0x400 = u.toNat := by omega
  have htrail : 0xdc00 + ((u.toNat - 0xd800) * 0x400 + (v.toNat - 0xdc00) + 0x10000 - 0x10000) %
      0x400 = v.toNat := by omega
  rw [hlead, htrail, UInt16.ofNat_toNat, UInt16.ofNat_toNat]

/-- Units that characters stand for are no others than theirs. -/
theorem eq_flatMap_of_charsOf? (us : List UInt16) {cs : List Char} (h : charsOf? us = some cs) :
    us = cs.flatMap unitsOf := by
  fun_induction charsOf? us generalizing cs with
  | case1 =>
    obtain rfl := Option.some_inj.mp h
    rfl
  | case2 u hsurrogate => simp at h
  | case3 u hplain =>
    obtain rfl := Option.some_inj.mp h
    simp [unitsOf_ofNat (by simpa using hplain)]
  | case4 u v rest hplain ih =>
    obtain ⟨cs, hcs, rfl⟩ := Option.map_eq_some_iff.mp h
    rw [List.flatMap_cons, unitsOf_ofNat (by simpa using hplain), ← ih hcs]
    rfl
  | case5 u v rest _ hpair ih =>
    obtain ⟨cs, hcs, rfl⟩ := Option.map_eq_some_iff.mp h
    obtain ⟨hu, hv⟩ := Bool.and_eq_true_iff.mp hpair
    rw [List.flatMap_cons, unitsOf_pairChar hu hv, ← ih hcs]
    rfl
  | case6 => simp at h

theorem charsOf?_flatMap_unitsOf (cs : List Char) : charsOf? (cs.flatMap unitsOf) = some cs := by
  induction cs with
  | nil => rfl
  | cons c cs ih => rw [List.flatMap_cons, charsOf?_unitsOf_append, ih, Option.map_some]

/-- The units of a text are all that stand for it. -/
theorem textOf?_eq_some_iff {us : List UInt16} {text : String} :
    textOf? us = some text ↔ us = units text := by
  constructor
  · intro h
    obtain ⟨cs, hcs, rfl⟩ := Option.map_eq_some_iff.mp h
    rw [units, String.toList_ofList]
    exact eq_flatMap_of_charsOf? us hcs
  · rintro rfl
    rw [textOf?, units, charsOf?_flatMap_unitsOf, Option.map_some, String.ofList_toList]

theorem textOf?_units (text : String) : textOf? (units text) = some text :=
  textOf?_eq_some_iff.mpr rfl

theorem units_injective : Function.Injective units := fun a b h =>
  Option.some_inj.mp (by rw [← textOf?_units a, ← textOf?_units b, h])

end GraphFolding.Json
