/-
Numbers of JSON texts as they are read.

A number is followed by a blank, a comma, a closing bracket or the end of the text, and what is
read of it does not depend on which:

* `Json.numeralOf?` — what is read of a number;
* `Json.Cursor.gives_numeral`, `Json.Cursor.passes_skipNumeral` — it is read so in any text, and
  passed over whatever its size.
-/
import GraphFolding.Proofs.JsonLexemes
namespace GraphFolding.Json

open Data

/-! ### What may follow a number -/

/-- What may stand after a value. -/
def Ends (rest : List Char) : Prop :=
  ∀ c ∈ rest.head?, isBlank c = true ∨ c = ',' ∨ c = ']' ∨ c = '\x7d'

/-- Whether no digit comes next. -/
def NoDigit (rest : List Char) : Prop := ∀ c ∈ rest.head?, isDigit c = false

/-- What a reader gives of a text, wherever it stands. -/
def Reads {α : Type} (R : Cursor → Except Error (α × Cursor)) (text : List Char)
    (found? : Option α) : Prop :=
  ∀ (k : Cursor) (rest : List Char), k.rest = text ++ rest → Ends rest → Gives (R k) found? rest

theorem IsDigits.exists_cons {text : List Char} (h : IsDigits text) :
    ∃ c rest, text = c :: rest ∧ isDigit c = true := by
  obtain ⟨hne, hall⟩ := h
  rcases text with _ | ⟨c, rest⟩
  · exact absurd rfl hne
  · exact ⟨c, rest, rfl, hall c List.mem_cons_self⟩

theorem noDigit_cons {c : Char} (h : isDigit c = false) (rest : List Char) :
    NoDigit (c :: rest) := by
  intro x hx
  obtain rfl : c = x := by simpa using hx
  exact h

theorem Ends.cases {rest : List Char} (h : Ends rest) : NoDigit rest ∧
    (∀ c ∈ rest.head?, c ≠ '.' ∧ c ≠ 'e' ∧ c ≠ 'E') := by
  constructor
  · intro c hc
    rcases h c hc with hblank | rfl | rfl | rfl
    · simp only [isBlank, Bool.or_eq_true, decide_eq_true_eq] at hblank
      rcases hblank with ((rfl | rfl) | rfl) | rfl <;> rfl
    · rfl
    · rfl
    · rfl
  · intro c hc
    rcases h c hc with hblank | rfl | rfl | rfl
    · simp only [isBlank, Bool.or_eq_true, decide_eq_true_eq] at hblank
      rcases hblank with ((rfl | rfl) | rfl) | rfl <;> decide
    · decide
    · decide
    · decide

namespace Cursor

theorem startsDigit_eq_false {k : Cursor} (h : NoDigit k.rest) : k.startsDigit = false := by
  rw [startsDigit]
  rcases hrest : k.rest with _ | ⟨c, rest⟩
  · rfl
  · exact h c (by rw [hrest]; rfl)

theorem startsDigit_of_digits {k : Cursor} {digits rest : List Char} (hdigits : IsDigits digits)
    (h : k.rest = digits ++ rest) : k.startsDigit = true := by
  obtain ⟨c, digits, rfl, hc⟩ := hdigits.exists_cons
  rw [startsDigit, h]
  exact hc

theorem startsExponent_eq_false {k : Cursor} (h : ∀ c ∈ k.rest.head?, c ≠ 'e' ∧ c ≠ 'E') :
    k.startsExponent = false := by
  rw [startsExponent]
  rcases hrest : k.rest with _ | ⟨c, rest⟩
  · rfl
  · have hc := h c (by rw [hrest]; rfl)
    simp [hc.1, hc.2]

/-- The significand of digits, how many of them fit, and those that do not. -/
theorem gather_digits (digits : List Char) (hdigits : ∀ c ∈ digits, isDigit c = true) :
    ∀ significand count, ∃ significand' count' left, (∀ c ∈ left, isDigit c = true) ∧
      count' + left.length = count + digits.length ∧
      ∀ position rest, NoDigit rest → ∃ position',
        gather significand count position (digits ++ rest) =
          (significand', count', ⟨position', left ++ rest⟩) := by
  induction digits with
  | nil =>
    intro significand count
    refine ⟨significand, count, [], by simp, rfl, fun position rest hrest => ⟨position, ?_⟩⟩
    rcases rest with _ | ⟨c, rest⟩
    · rfl
    · rw [List.nil_append, gather, hrest c rfl]
      rfl
  | cons c digits ih =>
    intro significand count
    by_cases hgrown : significand * 10 + (c.toNat - '0'.toNat) ≤ maxSignificand
    · obtain ⟨significand', count', left, hleft, hcount, hgather⟩ :=
        ih (fun x hx => hdigits x (List.mem_cons_of_mem c hx)) _ (count + 1)
      refine ⟨significand', count', left, hleft, by rw [hcount, List.length_cons]; omega,
        fun position rest hrest => ?_⟩
      obtain ⟨position', h⟩ := hgather (position.after c) rest hrest
      refine ⟨position', ?_⟩
      rw [List.cons_append, gather, ← h, if_pos]
      rw [hdigits c List.mem_cons_self, decide_eq_true hgrown]
      rfl
    · refine ⟨significand, count, c :: digits, hdigits, rfl, fun position rest _ => ⟨position, ?_⟩⟩
      rw [List.cons_append, gather, if_neg]
      rw [decide_eq_false hgrown, Bool.and_false]
      exact Bool.false_ne_true

/-- The digits of an exponent: all of them, or those after the one that makes it too large. -/
theorem exponentDigits_digits (digits : List Char) (hdigits : ∀ c ∈ digits, isDigit c = true) :
    ∀ exponent,
      (∃ exponent', ∀ position rest, NoDigit rest → ∃ position',
        exponentDigits exponent position (digits ++ rest) = .ok (exponent', ⟨position', rest⟩)) ∨
      (∃ left, (∀ c ∈ left, isDigit c = true) ∧ ∀ position rest, NoDigit rest → ∃ position',
        exponentDigits exponent position (digits ++ rest) = .error ⟨position', left ++ rest⟩) := by
  induction digits with
  | nil =>
    refine fun exponent => .inl ⟨exponent, fun position rest hrest => ⟨position, ?_⟩⟩
    rcases rest with _ | ⟨c, rest⟩
    · rfl
    · rw [List.nil_append, exponentDigits, hrest c rfl]
      rfl
  | cons c digits ih =>
    intro exponent
    have hdigit := hdigits c List.mem_cons_self
    have hmore := fun x hx => hdigits x (List.mem_cons_of_mem c hx)
    by_cases hgrown : maxExponent < exponent * 10 + (c.toNat - '0'.toNat)
    · refine .inr ⟨digits, hmore, fun position rest _ => ⟨position.after c, ?_⟩⟩
      rw [List.cons_append, exponentDigits, if_pos hdigit, if_pos hgrown]
    · rcases ih hmore (exponent * 10 + (c.toNat - '0'.toNat)) with ⟨exponent', h⟩ | ⟨left, hleft, h⟩
      · refine .inl ⟨exponent', fun position rest hrest => ?_⟩
        rw [List.cons_append, exponentDigits, if_pos hdigit, if_neg hgrown]
        exact h (position.after c) rest hrest
      · refine .inr ⟨left, hleft, fun position rest hrest => ?_⟩
        rw [List.cons_append, exponentDigits, if_pos hdigit, if_neg hgrown]
        exact h (position.after c) rest hrest


/-- A floating-point number from its parts, if it is not too large. -/
def realOf? (negative : Bool) (significand : Nat) (exponent : Int) : Option Numeral :=
  (scaled? (Format.double.ofNat significand) exponent).map fun x =>
    .real (if negative then x.negate else x)

theorem gives_finishReal {k : Cursor} {rest : List Char} (h : k.rest = rest) (negative : Bool)
    (significand : Nat) (exponent : Int) :
    Gives (k.finishReal negative significand exponent) (realOf? negative significand exponent)
      rest := by
  rw [finishReal, realOf?]
  rcases scaled? (Format.double.ofNat significand) exponent with _ | x
  · exact gives_error _
  · exact gives_ok h

theorem sign_eq {k : Cursor} {sign digits rest : List Char}
    (hsign : sign = [] ∨ sign = ['+'] ∨ sign = ['-']) (hdigits : IsDigits digits)
    (h : k.rest = sign ++ (digits ++ rest)) :
    k.sign.1 = decide (sign = ['-']) ∧ k.sign.2.rest = digits ++ rest := by
  rcases hsign with rfl | rfl | rfl
  · obtain ⟨c, digits, rfl, hc⟩ := hdigits.exists_cons
    rw [Cursor.sign]
    split
    · rename_i heq
      obtain ⟨rfl, -⟩ := List.cons.inj (h.symm.trans heq)
      exact absurd hc (by decide)
    · rename_i heq
      obtain ⟨rfl, -⟩ := List.cons.inj (h.symm.trans heq)
      exact absurd hc (by decide)
    · exact ⟨rfl, h⟩
  · rw [Cursor.sign, h]
    exact ⟨rfl, rest_advance h⟩
  · rw [Cursor.sign, h]
    exact ⟨rfl, rest_advance h⟩

/-- Behind the mark and the sign of an exponent its digits are read. -/
theorem exists_exponentPart_eq {mark : Char} {sign digits rest : List Char}
    (hsign : sign = [] ∨ sign = ['+'] ∨ sign = ['-']) (hdigits : IsDigits digits)
    {k : Cursor} (h : k.rest = mark :: (sign ++ digits) ++ rest) (negative : Bool)
    (significand : Nat) (shift : Int) : ∃ position,
      (∀ exponent k', exponentDigits 0 position (digits ++ rest) = .ok (exponent, k') →
        k.exponentPart negative significand shift = k'.finishReal negative significand
          (if decide (sign = ['-']) then shift - exponent else shift + exponent)) ∧
      (∀ k', exponentDigits 0 position (digits ++ rest) = .error k' →
        k.exponentPart negative significand shift =
          if significand ≠ 0 && !decide (sign = ['-']) then k'.failHere .numberOutOfRange
          else k'.skipDigits.finishReal negative 0 0) := by
  rw [List.cons_append, List.append_assoc] at h
  obtain ⟨hnegative, hk⟩ := sign_eq hsign hdigits (rest_advance h)
  obtain ⟨c, more, rfl, hc⟩ := hdigits.exists_cons
  rw [List.cons_append] at hk ⊢
  refine ⟨k.advance.sign.2.position, fun exponent k' hread => ?_, fun k' hread => ?_⟩
  · simp only [exponentPart, hk, hnegative, hc, hread]
    rfl
  · simp only [exponentPart, hk, hnegative, hc, hread]
    rfl

/-- An exponent decides what number it ends, or that the number is too large. -/
theorem exists_reads_exponentPart (mark : Char) {sign digits : List Char}
    (hsign : sign = [] ∨ sign = ['+'] ∨ sign = ['-']) (hdigits : IsDigits digits)
    (negative : Bool) (significand : Nat) (shift : Int) :
    ∃ found?, Reads (fun k => k.exponentPart negative significand shift)
      (mark :: (sign ++ digits)) found? := by
  rcases exponentDigits_digits digits hdigits.2 0 with ⟨exponent, hread⟩ | ⟨left, hleft, hread⟩
  · refine ⟨realOf? negative significand
      (if decide (sign = ['-']) then shift - exponent else shift + exponent),
      fun k rest h hrest => ?_⟩
    obtain ⟨position, hok, -⟩ := exists_exponentPart_eq hsign hdigits h negative significand shift
    obtain ⟨position', hexponent⟩ := hread position rest hrest.cases.1
    dsimp only
    rw [hok _ _ hexponent]
    exact gives_finishReal rfl negative significand _
  · by_cases hlarge : (significand ≠ 0 && !decide (sign = ['-'])) = true
    · refine ⟨none, fun k rest h hrest => ?_⟩
      obtain ⟨position, -, herror⟩ :=
        exists_exponentPart_eq hsign hdigits h negative significand shift
      obtain ⟨position', hexponent⟩ := hread position rest hrest.cases.1
      dsimp only
      rw [herror _ hexponent, if_pos hlarge]
      exact gives_error _
    · refine ⟨realOf? negative 0 0, fun k rest h hrest => ?_⟩
      obtain ⟨position, -, herror⟩ :=
        exists_exponentPart_eq hsign hdigits h negative significand shift
      obtain ⟨position', hexponent⟩ := hread position rest hrest.cases.1
      dsimp only
      rw [herror _ hexponent, if_neg hlarge]
      exact gives_finishReal (rest_skipDigits hleft rfl hrest.cases.1) negative 0 0

/-- What comes after the digits of a number: the exponent, if there is one, and the rest. -/
theorem noDigit_exponent {exponent rest : List Char} (hexponent : IsExponent exponent)
    (hrest : Ends rest) : NoDigit (exponent ++ rest) := by
  rcases hexponent with rfl | ⟨mark, sign, digits, rfl, hmark, -, -⟩
  · exact hrest.cases.1
  · refine noDigit_cons ?_ _
    rcases hmark with rfl | rfl
    · rfl
    · rfl

/-- An exponent or its absence, after `shift` digits that moved the point. -/
theorem exists_reads_exponent {exponent : List Char} (hexponent : IsExponent exponent)
    {R : Cursor → Except Error (Numeral × Cursor)} (last? : Option Numeral) (negative : Bool)
    (significand : Nat) (shift : Int)
    (hmark : ∀ k : Cursor, k.startsExponent = true →
      R k = k.exponentPart negative significand shift)
    (hnone : ∀ k : Cursor, k.startsExponent = false → (∀ c ∈ k.rest.head?, c ≠ '.') →
      Gives (R k) last? k.rest) :
    ∃ found?, Reads R exponent found? := by
  rcases hexponent with rfl | ⟨mark, sign, digits, rfl, hmarks, hsign, hdigits⟩
  · refine ⟨last?, fun k rest h hrest => ?_⟩
    obtain rfl : k.rest = rest := h
    obtain ⟨-, hhead⟩ := hrest.cases
    exact hnone k (startsExponent_eq_false fun c hc => (hhead c hc).2) fun c hc => (hhead c hc).1
  · obtain ⟨found?, hread⟩ := exists_reads_exponentPart mark hsign hdigits negative
      significand shift
    refine ⟨found?, fun k rest h hrest => ?_⟩
    have hstarts : k.startsExponent = true := by
      rw [startsExponent, h]
      rcases hmarks with rfl | rfl
      · rfl
      · rfl
    rw [hmark k hstarts]
    exact hread k rest h hrest

/-- A fraction decides with what follows it what number it ends. -/
theorem exists_reads_fractionPart {digits exponent : List Char} (hdigits : IsDigits digits)
    (hexponent : IsExponent exponent) (negative : Bool) (significand : Nat) (shift : Int) :
    ∃ found?, Reads (fun k => k.fractionPart negative significand shift)
      ('.' :: (digits ++ exponent)) found? := by
  obtain ⟨significand', count, left, hleft, hcount, hgather⟩ :=
    gather_digits digits hdigits.2 significand 0
  -- After the digits there is an exponent, or the number ends.
  obtain ⟨found?, hread⟩ := exists_reads_exponent hexponent (R := fun k =>
      if k.startsExponent then k.exponentPart negative significand' (shift - count)
      else k.finishReal negative significand' (shift - count))
    (realOf? negative significand' (shift - count)) negative significand' (shift - count)
    (fun k hk => if_pos hk)
    (fun k hk _ => by
      simp only [hk, Bool.false_eq_true, if_false]
      exact gives_finishReal rfl negative significand' (shift - count))
  refine ⟨found?, fun k rest h hrest => ?_⟩
  rw [List.cons_append, List.append_assoc] at h
  have hnext := noDigit_exponent hexponent hrest
  obtain ⟨position, hk⟩ := hgather k.advance.position (exponent ++ rest) hnext
  have hstop : (count = 0 && !(⟨position, left ++ (exponent ++ rest)⟩ : Cursor).startsDigit) =
      false := by
    rcases left with _ | ⟨c, left⟩
    · have hpos := List.length_pos_iff.mpr hdigits.1
      have hne : count ≠ 0 := by
        simp only [List.length_nil, Nat.add_zero, Nat.zero_add] at hcount
        omega
      simp [hne]
    · rw [startsDigit_of_digits ⟨List.cons_ne_nil c left, hleft⟩ rfl, Bool.not_true, Bool.and_false]
  simp only [fractionPart, rest_advance h, hk, hstop]
  exact hread _ rest (rest_skipDigits hleft rfl hnext) hrest

theorem ne_point_of_startsExponent {k : Cursor} (h : k.startsExponent = true) :
    ∀ c ∈ k.rest.head?, c ≠ '.' := by
  intro c hc
  rw [startsExponent] at h
  rcases hrest : k.rest with _ | ⟨x, rest⟩
  · simp [hrest] at hc
  · obtain rfl : x = c := by simpa [hrest] using hc
    rw [hrest] at h
    rintro rfl
    exact Bool.false_ne_true h

/-- The value of an integer. -/
def integerOf (negative : Bool) (significand : Nat) : Numeral :=
  ((ofString "").finishInteger negative significand).1

theorem finishInteger_eq (k : Cursor) (negative : Bool) (significand : Nat) :
    k.finishInteger negative significand = (integerOf negative significand, k) := by
  unfold integerOf finishInteger
  split_ifs <;> rfl

/-- Without a point the exponent comes next, if there is one. -/
theorem numeralTail_eq {k : Cursor} (hpoint : ∀ c ∈ k.rest.head?, c ≠ '.') (negative : Bool)
    (significand shift : Nat) : k.numeralTail negative significand shift =
      if k.startsExponent then k.exponentPart negative significand shift
      else if shift = 0 then .ok (k.finishInteger negative significand)
      else k.finishReal negative significand shift := by
  rw [numeralTail]
  split
  · rename_i heq
    exact absurd rfl (hpoint '.' (by rw [heq]; rfl))
  · rfl

/-- What follows the digits before the point decides what number it ends. -/
theorem exists_reads_numeralTail {fraction exponent : List Char} (hfraction : IsFraction fraction)
    (hexponent : IsExponent exponent) (negative : Bool) (significand shift : Nat) :
    ∃ found?, Reads (fun k => k.numeralTail negative significand shift) (fraction ++ exponent)
      found? := by
  rcases hfraction with rfl | ⟨digits, rfl, hdigits⟩
  · refine exists_reads_exponent hexponent
      (if shift = 0 then some (integerOf negative significand)
        else realOf? negative significand shift)
      negative significand shift (fun k hk => ?_) (fun k hk hpoint => ?_)
    · rw [numeralTail_eq (ne_point_of_startsExponent hk), if_pos hk]
    · rw [numeralTail_eq hpoint, hk]
      by_cases hshift : shift = 0
      · rw [if_neg Bool.false_ne_true, if_pos hshift, if_pos hshift, finishInteger_eq]
        exact gives_ok rfl
      · rw [if_neg Bool.false_ne_true, if_neg hshift, if_neg hshift]
        exact gives_finishReal rfl negative significand shift
  · obtain ⟨found?, hread⟩ := exists_reads_fractionPart hdigits hexponent negative significand shift
    refine ⟨found?, fun k rest h hrest => ?_⟩
    have htail : k.numeralTail negative significand shift =
        k.fractionPart negative significand shift := by
      rw [numeralTail, h]
      rfl
    dsimp only
    rw [htail]
    exact hread k rest h hrest

/-- What comes after the digits before the point. -/
theorem noDigit_fraction {fraction exponent rest : List Char} (hfraction : IsFraction fraction)
    (hexponent : IsExponent exponent) (hrest : Ends rest) :
    NoDigit (fraction ++ (exponent ++ rest)) := by
  rcases hfraction with rfl | ⟨digits, rfl, -⟩
  · rw [List.nil_append]
    exact noDigit_exponent hexponent hrest
  · exact noDigit_cons rfl _

/-- A zero at the beginning is all that stands before the point. -/
theorem numeral_of_zero {k : Cursor} {rest : List Char} (h : k.rest = '0' :: rest)
    (hnext : NoDigit rest) (negative : Bool) :
    k.numeral negative = k.advance.numeralTail negative 0 0 := by
  have hstop : k.advance.startsDigit = false :=
    startsDigit_eq_false (by rw [rest_advance h]; exact hnext)
  rw [numeral, h]
  exact if_neg (by simp [hstop])

/-- Other digits are gathered, and those for which there is no room are counted. -/
theorem numeral_of_digits {k : Cursor} {digits left rest : List Char} {significand count : Nat}
    {position : Position} (h : k.rest = digits ++ rest) (hdigits : IsDigits digits)
    (hzero : digits.head? ≠ some '0')
    (hgather : gather 0 0 k.position (digits ++ rest) =
      (significand, count, ⟨position, left ++ rest⟩))
    (hlast : (⟨position, left ++ rest⟩ : Cursor).skipDigits.rest = rest) (negative : Bool) :
    k.numeral negative = (⟨position, left ++ rest⟩ : Cursor).skipDigits.numeralTail negative
      significand left.length := by
  obtain ⟨c, more, rfl, hdigit⟩ := hdigits.exists_cons
  have hc : c ≠ '0' := fun heq => hzero (by rw [heq]; rfl)
  rw [numeral]
  split
  · rename_i heq
    simp [h] at heq
  · rename_i heq
    exact absurd (List.cons.inj (h.symm.trans heq)).1 hc
  · rename_i heq
    obtain ⟨rfl, -⟩ := List.cons.inj (h.symm.trans heq)
    rw [hdigit, h, hgather]
    simp only [Bool.not_true, Bool.false_eq_true, if_false, hlast, List.length_append,
      Nat.add_sub_cancel]

/-- A number without its sign decides what is read of it. -/
theorem exists_reads_numeral {unsigned : List Char} (hunsigned : IsUnsigned unsigned)
    (negative : Bool) : ∃ found?, Reads (fun k => k.numeral negative) unsigned found? := by
  obtain ⟨whole, fraction, exponent, rfl, hwhole, hfraction, hexponent⟩ := hunsigned
  rcases hwhole with rfl | ⟨hdigits, hzero⟩
  · obtain ⟨found?, hread⟩ := exists_reads_numeralTail hfraction hexponent negative 0 0
    refine ⟨found?, fun k rest h hrest => ?_⟩
    have hk : k.rest = '0' :: (fraction ++ (exponent ++ rest)) := by simpa using h
    dsimp only
    rw [numeral_of_zero hk (noDigit_fraction hfraction hexponent hrest)]
    exact hread k.advance rest (by simpa using rest_advance hk) hrest
  · obtain ⟨significand, count, left, hleft, -, hgather⟩ :=
      gather_digits whole hdigits.2 0 0
    obtain ⟨found?, hread⟩ := exists_reads_numeralTail hfraction hexponent negative significand
      left.length
    refine ⟨found?, fun k rest h hrest => ?_⟩
    -- The number of digits left over does not depend on where they stand, so neither does
    -- what is read.
    have hnext := noDigit_fraction hfraction hexponent hrest
    have hk : k.rest = whole ++ (fraction ++ (exponent ++ rest)) := by simpa using h
    obtain ⟨position, hgathered⟩ := hgather k.position _ hnext
    have hlast := rest_skipDigits (k := ⟨position, left ++ (fraction ++ (exponent ++ rest))⟩) hleft
      rfl hnext
    dsimp only
    rw [numeral_of_digits hk hdigits hzero hgathered hlast]
    exact hread _ rest (by rw [hlast, List.append_assoc]) hrest

end Cursor

/-! ### What is read of a number -/

/-- What is read of a number, if it is not too large. -/
def numeralOf? (literal : List Char) : Option Numeral :=
  match literal with
  | '-' :: unsigned => ((⟨.start, unsigned⟩ : Cursor).numeral true).toOption.map Prod.fst
  | _ => ((⟨.start, literal⟩ : Cursor).numeral false).toOption.map Prod.fst

theorem Reads.eq_toOption {α : Type} {R : Cursor → Except Error (α × Cursor)} {text : List Char}
    {found? : Option α} (h : Reads R text found?) :
    found? = (R ⟨.start, text⟩).toOption.map Prod.fst := by
  have hread := h ⟨.start, text⟩ [] (List.append_nil text).symm (by simp [Ends])
  rcases found? with _ | a
  · obtain ⟨e, he⟩ := hread
    rw [he]
    rfl
  · obtain ⟨k, hk, -⟩ := hread
    rw [hk]
    rfl

theorem IsUnsigned.exists_cons {text : List Char} (h : IsUnsigned text) :
    ∃ c rest, text = c :: rest ∧ isDigit c = true := by
  obtain ⟨whole, fraction, exponent, rfl, rfl | ⟨hdigits, -⟩, -, -⟩ := h
  · exact ⟨'0', fraction ++ exponent, rfl, rfl⟩
  · obtain ⟨c, rest, rfl, hc⟩ := hdigits.exists_cons
    exact ⟨c, rest ++ (fraction ++ exponent), rfl, hc⟩

namespace Cursor

/-- A number without a sign. -/
theorem gives_numeral {unsigned : List Char} (h : IsUnsigned unsigned) :
    Reads (fun k => k.numeral false) unsigned (numeralOf? unsigned) := by
  obtain ⟨found?, hread⟩ := exists_reads_numeral h false
  have hfound : numeralOf? unsigned = found? := by
    obtain ⟨c, rest, rfl, hc⟩ := h.exists_cons
    rw [numeralOf?.eq_2 _ fun rest' heq => ?_]
    · exact hread.eq_toOption.symm
    · obtain ⟨rfl, -⟩ := List.cons.inj heq
      exact absurd hc (by decide)
  rwa [hfound]

/-- A number after its sign. -/
theorem gives_numeral_negative {unsigned : List Char} (h : IsUnsigned unsigned) :
    Reads (fun k => k.numeral true) unsigned (numeralOf? ('-' :: unsigned)) := by
  obtain ⟨found?, hread⟩ := exists_reads_numeral h true
  have hfound : numeralOf? ('-' :: unsigned) = found? := hread.eq_toOption.symm
  rwa [hfound]

/-! ### Past numbers -/

theorem passes_skipExponent {mark : Char} {sign digits rest : List Char}
    (hsign : sign = [] ∨ sign = ['+'] ∨ sign = ['-']) (hdigits : IsDigits digits) {k : Cursor}
    (h : k.rest = mark :: (sign ++ (digits ++ rest))) (hrest : NoDigit rest) :
    Passes k.skipExponent rest := by
  obtain ⟨-, hk⟩ := sign_eq hsign hdigits (rest_advance h)
  obtain ⟨c, more, rfl, hc⟩ := hdigits.exists_cons
  have hskip : k.skipExponent = .ok k.advance.sign.2.skipDigits := by
    simp only [skipExponent]
    rw [hk]
    exact if_pos hc
  exact ⟨_, hskip, rest_skipDigits hdigits.2 hk hrest⟩

/-- Past an exponent, if there is one. -/
theorem passes_exponent {exponent rest : List Char} (hexponent : IsExponent exponent) {k : Cursor}
    (h : k.rest = exponent ++ rest) (hrest : Ends rest) :
    Passes (if k.startsExponent then k.skipExponent else .ok k) rest := by
  rcases hexponent with rfl | ⟨mark, sign, digits, rfl, hmarks, hsign, hdigits⟩
  · obtain rfl : k.rest = rest := h
    rw [startsExponent_eq_false fun c hc => (hrest.cases.2 c hc).2]
    exact ⟨k, rfl, rfl⟩
  · have hstarts : k.startsExponent = true := by
      rw [startsExponent, h]
      rcases hmarks with rfl | rfl
      · rfl
      · rfl
    rw [if_pos hstarts]
    rw [List.cons_append, List.append_assoc] at h
    exact passes_skipExponent hsign hdigits h hrest.cases.1

theorem passes_skipNumeralTail {fraction exponent rest : List Char}
    (hfraction : IsFraction fraction) (hexponent : IsExponent exponent) {k : Cursor}
    (h : k.rest = fraction ++ (exponent ++ rest)) (hrest : Ends rest) :
    Passes k.skipNumeralTail rest := by
  rcases hfraction with rfl | ⟨digits, rfl, hdigits⟩
  · rw [List.nil_append] at h
    have hpoint : ∀ c ∈ k.rest.head?, c ≠ '.' := by
      rcases hexponent with rfl | ⟨mark, sign, digits, rfl, rfl | rfl, -, -⟩
      · obtain rfl : k.rest = rest := h
        exact fun c hc => (hrest.cases.2 c hc).1
      · exact ne_point_of_startsExponent (by rw [startsExponent, h]; rfl)
      · exact ne_point_of_startsExponent (by rw [startsExponent, h]; rfl)
    rw [skipNumeralTail]
    split
    · rename_i heq
      exact absurd rfl (hpoint '.' (by rw [heq]; rfl))
    · exact passes_exponent hexponent h hrest
  · have hnext := noDigit_exponent hexponent hrest
    rw [List.cons_append] at h
    have hk := rest_advance h
    rw [skipNumeralTail, h]
    dsimp only
    rw [startsDigit_of_digits hdigits hk, if_neg (by simp)]
    exact passes_exponent hexponent (rest_skipDigits hdigits.2 hk hnext) hrest

/-- Past a number, after its sign. -/
theorem passes_skipNumeral {unsigned rest : List Char} (h : IsUnsigned unsigned) {k : Cursor}
    (hk : k.rest = unsigned ++ rest) (hrest : Ends rest) : Passes k.skipNumeral rest := by
  obtain ⟨whole, fraction, exponent, rfl, hwhole, hfraction, hexponent⟩ := h
  have hnext := noDigit_fraction hfraction hexponent hrest
  rw [List.append_assoc, List.append_assoc] at hk
  rcases hwhole with rfl | ⟨hdigits, hzero⟩
  · have hstop : k.advance.startsDigit = false := startsDigit_eq_false
      (by rw [rest_advance hk]; exact hnext)
    rw [skipNumeral, hk]
    simp only [hstop]
    exact passes_skipNumeralTail hfraction hexponent (rest_advance hk) hrest
  · have hlast := rest_skipDigits hdigits.2 hk hnext
    have hskip : k.skipNumeral = k.skipDigits.skipNumeralTail := by
      obtain ⟨c, whole, rfl, hdigit⟩ := hdigits.exists_cons
      have hc : c ≠ '0' := fun heq => hzero (by rw [heq]; rfl)
      rw [skipNumeral]
      split
      · rename_i heq
        simp [hk] at heq
      · rename_i heq
        exact absurd (List.cons.inj (hk.symm.trans heq)).1 hc
      · rename_i heq
        obtain ⟨rfl, -⟩ := List.cons.inj (hk.symm.trans heq)
        exact if_pos hdigit
    rw [hskip]
    exact passes_skipNumeralTail hfraction hexponent hlast hrest

end Cursor
end GraphFolding.Json
