/-
Strings of JSON texts as they are read.

* `Json.Cursor.gives_string` — a string is read as the text of its units, if there is one;
* `Json.Cursor.passes_skipString` — any string is passed over.
-/
import GraphFolding.Proofs.JsonLexemes
namespace GraphFolding.Json.Cursor

/-! ### Escapes -/

theorem toNat_le_toNat_iff {a b : Char} : a ≤ b ↔ a.toNat ≤ b.toNat := Iff.rfl

theorem utf8Size_of_hexValue? {c : Char} {n : Nat} (h : hexValue? c = some n) :
    c.utf8Size = 1 ∧ n < 16 := by
  have hascii : c.toNat ≤ 127 → c.utf8Size = 1 := fun h => Char.utf8Size_eq_one_iff.mpr h
  unfold hexValue? at h
  simp only [Bool.and_eq_true, decide_eq_true_eq, toNat_le_toNat_iff] at h
  have e0 : '0'.toNat = 48 := rfl
  have e9 : '9'.toNat = 57 := rfl
  have ea : 'a'.toNat = 97 := rfl
  have ef : 'f'.toNat = 102 := rfl
  have eA : 'A'.toNat = 65 := rfl
  have eF : 'F'.toNat = 70 := rfl
  split_ifs at h with h₁ h₂ h₃
  · obtain rfl := Option.some_inj.mp h
    exact ⟨hascii (by omega), by omega⟩
  · obtain rfl := Option.some_inj.mp h
    exact ⟨hascii (by omega), by omega⟩
  · obtain rfl := Option.some_inj.mp h
    exact ⟨hascii (by omega), by omega⟩

/-- The four digits of a numbered escape, each of which is a byte. -/
theorem gives_hexUnit {k : Cursor} {c₁ c₂ c₃ c₄ : Char} {d₁ d₂ d₃ d₄ : Nat} {rest : List Char}
    (h : k.rest = c₁ :: c₂ :: c₃ :: c₄ :: rest) (h₁ : hexValue? c₁ = some d₁)
    (h₂ : hexValue? c₂ = some d₂) (h₃ : hexValue? c₃ = some d₃) (h₄ : hexValue? c₄ = some d₄) :
    Gives k.hexUnit (some (((d₁ * 16 + d₂) * 16 + d₃) * 16 + d₄)) rest := by
  have hbytes : ∃ next, Position.afterBytes 4 k.position (c₁ :: c₂ :: c₃ :: c₄ :: rest) =
      some next := by
    simp only [Position.afterBytes, (utf8Size_of_hexValue? h₁).1, (utf8Size_of_hexValue? h₂).1,
      (utf8Size_of_hexValue? h₃).1, (utf8Size_of_hexValue? h₄).1]
    rcases rest with _ | ⟨c, rest⟩ <;> simp [Position.afterBytes]
  obtain ⟨next, hnext⟩ := hbytes
  rw [hexUnit, h, hnext]
  simp only [h₁, h₂, h₃, h₄]
  exact gives_ok rfl

theorem hexUnit_lt {d₁ d₂ d₃ d₄ : Nat} {c₁ c₂ c₃ c₄ : Char} (h₁ : hexValue? c₁ = some d₁)
    (h₂ : hexValue? c₂ = some d₂) (h₃ : hexValue? c₃ = some d₃) (h₄ : hexValue? c₄ = some d₄) :
    ((d₁ * 16 + d₂) * 16 + d₃) * 16 + d₄ < 0x10000 := by
  have := (utf8Size_of_hexValue? h₁).2
  have := (utf8Size_of_hexValue? h₂).2
  have := (utf8Size_of_hexValue? h₃).2
  have := (utf8Size_of_hexValue? h₄).2
  omega

theorem lookup_of_mem_letterEscapes {letter c : Char} (h : (letter, c) ∈ letterEscapes) :
    letterEscapes.lookup letter = some c ∧ letter ≠ 'u' ∧
      isSurrogate (UInt16.ofNat c.toNat) = false ∧ unitsOf c = [UInt16.ofNat c.toNat] := by
  revert h
  simp only [letterEscapes, List.mem_cons, List.not_mem_nil, or_false, Prod.mk.injEq]
  rintro (⟨rfl, rfl⟩ | ⟨rfl, rfl⟩ | ⟨rfl, rfl⟩ | ⟨rfl, rfl⟩ | ⟨rfl, rfl⟩ | ⟨rfl, rfl⟩ | ⟨rfl, rfl⟩ |
    ⟨rfl, rfl⟩) <;> decide

theorem gives_escape_letter {k : Cursor} {letter c : Char} {rest : List Char}
    (hmem : (letter, c) ∈ letterEscapes) (h : k.rest = letter :: rest) :
    Gives k.escape (some c) rest := by
  obtain ⟨hlookup, hu, -, -⟩ := lookup_of_mem_letterEscapes hmem
  unfold escape
  split
  · rename_i heq
    simp [h] at heq
  · rename_i heq
    exact absurd (List.cons.inj (h.symm.trans heq)).1 hu
  · rename_i c' _ heq
    obtain ⟨rfl, -⟩ := List.cons.inj (h.symm.trans heq)
    rw [hlookup]
    exact gives_ok (rest_advance h)

theorem escape_numbered {k : Cursor} {rest : List Char} (h : k.rest = 'u' :: rest) :
    k.escape = k.advance.numberedEscape := by
  rw [escape, h]
  rfl

/-! #### What follows a leading surrogate -/

theorem expectPairPart_of_ne {k : Cursor} {c expected : Char} {rest : List Char}
    (h : k.rest = c :: rest) (hc : c ≠ expected) : ∃ e, k.expectPairPart expected = .error e := by
  rw [expectPairPart, h]
  exact ⟨_, if_neg hc⟩

theorem passes_expectPairPart {k : Cursor} {expected : Char} {rest : List Char}
    (h : k.rest = expected :: rest) : Passes (k.expectPairPart expected) rest := by
  rw [expectPairPart, h]
  exact ⟨_, if_pos rfl, rest_advance h⟩

theorem stringInto_quote {k : Cursor} {rest : List Char} (h : k.rest = '\x22' :: rest) (fuel : Nat)
    (found : List Char) :
    Gives (stringInto (fuel + 1) found k) (some (String.ofList found.reverse)) rest := by
  rw [stringInto, h]
  exact gives_ok (rest_advance h)

theorem stringInto_escape {k : Cursor} {rest : List Char} (h : k.rest = '\\' :: rest) (fuel : Nat)
    (found : List Char) : stringInto (fuel + 1) found k =
      k.advance.escape >>= fun (c, k) => stringInto fuel (c :: found) k := by
  rw [stringInto, h]
  rfl

theorem stringInto_plain {k : Cursor} {c : Char} {rest : List Char} (h : k.rest = c :: rest)
    (hquote : c ≠ '\x22') (hslash : c ≠ '\\') (hc : 0x20 ≤ c.toNat) (fuel : Nat)
    (found : List Char) :
    stringInto (fuel + 1) found k = stringInto fuel (c :: found) k.advance := by
  rw [stringInto]
  split
  · rename_i heq
    simp [h] at heq
  · rename_i heq
    exact absurd (List.cons.inj (h.symm.trans heq)).1 hquote
  · rename_i heq
    exact absurd (List.cons.inj (h.symm.trans heq)).1 hslash
  · rename_i heq
    obtain ⟨rfl, -⟩ := List.cons.inj (h.symm.trans heq)
    exact if_neg (by omega)

/-- The character of a pair of escapes, after the first of them. -/
def trailChar (lead : Nat) (k : Cursor) : Except Error (Char × Cursor) := do
  let k ← (← k.expectPairPart '\\').expectPairPart 'u'
  let (trail, k) ← k.hexUnit
  if trail < 0xdc00 || 0xdfff < trail then k.failHere .loneSurrogate
  else return (Char.ofNat ((lead - 0xd800) * 0x400 + (trail - 0xdc00) + 0x10000), k)

theorem numberedEscape_eq (k : Cursor) : k.numberedEscape = k.hexUnit >>= fun (lead, k) =>
    if 0xdc00 ≤ lead && lead ≤ 0xdfff then k.failHere .loneSurrogate
    else if lead < 0xd800 || 0xdbff < lead then .ok (Char.ofNat lead, k)
    else trailChar lead k :=
  rfl

/-- What follows a leading surrogate in a string: its partner, or what makes the string stand for
no text. -/
theorem gives_trailChar {lead : UInt16} (hlead : isLead lead = true) {us : List UInt16}
    {body : List Char} (hbody : StringBody us body) {k : Cursor} {rest : List Char}
    (h : k.rest = body ++ '\x22' :: rest) :
    (∃ trail us' body', us = trail :: us' ∧ isTrail trail = true ∧ StringBody us' body' ∧
      body'.length < body.length ∧
      Gives (trailChar lead.toNat k) (some (pairChar lead trail)) (body' ++ '\x22' :: rest)) ∨
    (charsOf? (lead :: us) = none ∧ ∀ rest, Gives (trailChar lead.toNat k) none rest) := by
  have hsurrogate := isSurrogate_of_isLead hlead
  cases hbody with
  | nil =>
    refine .inr ⟨charsOf?_cons_of_isSurrogate hsurrogate (by simp), fun _ => ?_⟩
    exact gives_bind_of_error (expectPairPart_of_ne h (by decide))
  | plain hquote hslash hc hbody =>
    refine .inr ⟨charsOf?_cons_of_isSurrogate hsurrogate fun _ => isTrail_head?_unitsOf _ _,
      fun _ => ?_⟩
    exact gives_bind_of_error (expectPairPart_of_ne h hslash)
  | letter hmem hbody =>
    refine .inr ⟨charsOf?_cons_of_isSurrogate hsurrogate fun _ => isTrail_head?_unitsOf _ _,
      fun _ => ?_⟩
    obtain ⟨-, hu, -, -⟩ := lookup_of_mem_letterEscapes hmem
    exact (passes_expectPairPart h).bind fun k' hk' =>
      gives_bind_of_error (expectPairPart_of_ne hk' hu)
  | @numbered c₁ c₂ c₃ c₄ d₁ d₂ d₃ d₄ us body h₁ h₂ h₃ h₄ hbody =>
    have htoNat := toNat_ofNat_of_lt (hexUnit_lt h₁ h₂ h₃ h₄)
    -- Only another numbered escape can be the partner, and only one for a trailing surrogate.
    by_cases htrail : isTrail (UInt16.ofNat (((d₁ * 16 + d₂) * 16 + d₃) * 16 + d₄)) = true
    · refine .inl ⟨_, us, body, rfl, htrail, hbody, by simp only [List.length_cons]; omega, ?_⟩
      refine (passes_expectPairPart h).bind fun k' hk' => (passes_expectPairPart hk').bind
        fun k'' hk'' => (gives_hexUnit hk'' h₁ h₂ h₃ h₄).bind_some fun k₃ hk₃ => ?_
      rw [isTrail_eq, htoNat, decide_eq_true_eq] at htrail
      rw [pairChar, htoNat]
      dsimp only
      rw [if_neg (by simp; omega)]
      exact gives_ok hk₃
    · refine .inr ⟨charsOf?_cons_of_isSurrogate hsurrogate fun _ => by simpa using htrail,
        fun _ => ?_⟩
      refine (passes_expectPairPart h).bind fun k' hk' => (passes_expectPairPart hk').bind
        fun k'' hk'' => (gives_hexUnit hk'' h₁ h₂ h₃ h₄).bind_some fun k₃ hk₃ => ?_
      rw [isTrail_eq, htoNat, decide_eq_true_eq] at htrail
      dsimp only
      rw [if_pos (by simp; omega)]
      exact gives_error _

/-- A numbered escape that is no surrogate, or a trailing one. -/
theorem gives_numberedEscape {k : Cursor} {n : Nat} {rest : List Char}
    (h : Gives k.hexUnit (some n) rest) (hlt : n < 0x10000)
    (hlead : isLead (UInt16.ofNat n) = false) : Gives k.numberedEscape
      (if isSurrogate (UInt16.ofNat n) then none else some (Char.ofNat n)) rest := by
  rw [numberedEscape_eq]
  refine h.bind_some fun k' hk' => ?_
  rw [isLead_eq, toNat_ofNat_of_lt hlt, decide_eq_false_iff_not] at hlead
  rw [isSurrogate_eq, toNat_ofNat_of_lt hlt]
  dsimp only
  by_cases hsurrogate : 0xd800 ≤ n ∧ n ≤ 0xdfff
  · rw [if_pos (by simp; omega), if_pos (by simpa using hsurrogate)]
    exact gives_error _
  · rw [if_neg (by simp; omega), if_pos (by simp; omega), if_neg (by simpa using hsurrogate)]
    exact gives_ok hk'

theorem numberedEscape_of_lead {k k' : Cursor} {n : Nat} (h : k.hexUnit = .ok (n, k'))
    (hlt : n < 0x10000) (hlead : isLead (UInt16.ofNat n) = true) :
    k.numberedEscape = trailChar n k' := by
  rw [isLead_eq, toNat_ofNat_of_lt hlt, decide_eq_true_eq] at hlead
  rw [numberedEscape_eq, h]
  show (if _ then _ else if _ then _ else trailChar n k') = trailChar n k'
  rw [if_neg (by simp; omega), if_neg (by simp; omega)]

/-- The characters of a string, after characters in reverse.  The induction is on the characters
left to read, of which a pair of escapes takes twelve at once. -/
theorem gives_stringInto (fuel : Nat) : ∀ {us : List UInt16} {body : List Char},
    StringBody us body → ∀ {k : Cursor} {rest : List Char} (found : List Char),
    k.rest = body ++ '\x22' :: rest → body.length < fuel →
    Gives (stringInto fuel found k)
      ((charsOf? us).map fun cs => String.ofList (found.reverse ++ cs)) rest := by
  induction fuel with
  | zero => exact fun _ _ _ _ _ hfuel => absurd hfuel (Nat.not_lt_zero _)
  | succ fuel ih =>
    intro us body hbody k rest found h hfuel
    -- One character more, and then the rest of the string.
    have hnext : ∀ {c : Char} {us' : List UInt16} {body' : List Char} {k' : Cursor},
        StringBody us' body' → body'.length < body.length → k'.rest = body' ++ '\x22' :: rest →
        charsOf? us = (charsOf? us').map (c :: ·) →
        Gives (stringInto fuel (c :: found) k')
          ((charsOf? us).map fun cs => String.ofList (found.reverse ++ cs)) rest := by
      intro c us' body' k' hbody' hlength hk' hcharacters
      have hrest := ih hbody' (c :: found) hk' (by omega)
      rw [hcharacters, Option.map_map]
      simpa [Function.comp_def] using hrest
    cases hbody with
    | nil =>
      have hquote := stringInto_quote h fuel found
      simpa [charsOf?] using hquote
    | @plain c us body hquote hslash hc hbody =>
      rw [stringInto_plain h hquote hslash hc]
      exact hnext hbody (by simp) (rest_advance h) (charsOf?_unitsOf_append c us)
    | @letter letter c us body hmem hbody =>
      rw [stringInto_escape h]
      exact (gives_escape_letter hmem (rest_advance h)).bind_some fun k' hk' =>
        hnext hbody (by simp only [List.length_cons]; omega) hk' (charsOf?_unitsOf_append c us)
    | @numbered c₁ c₂ c₃ c₄ d₁ d₂ d₃ d₄ us body h₁ h₂ h₃ h₄ hbody =>
      have hu := rest_advance h
      have hlt := hexUnit_lt h₁ h₂ h₃ h₄
      have hhex := gives_hexUnit (rest_advance hu) h₁ h₂ h₃ h₄
      rw [stringInto_escape h, escape_numbered hu]
      by_cases hlead : isLead (UInt16.ofNat (((d₁ * 16 + d₂) * 16 + d₃) * 16 + d₄)) = true
      · obtain ⟨k', hk', hrest⟩ := hhex
        rw [numberedEscape_of_lead hk' hlt hlead]
        have htrail := gives_trailChar hlead hbody hrest
        rw [toNat_ofNat_of_lt hlt] at htrail
        rcases htrail with
          ⟨trail, us', body', rfl, htrail, hbody', hlength, hgives⟩ | ⟨hnone, hgives⟩
        · refine hgives.bind_some fun k'' hk'' =>
            hnext hbody' (by simp only [List.length_cons]; omega) hk'' ?_
          exact charsOf?_pair hlead htrail us'
        · rw [hnone]
          exact gives_bind_of_error (hgives rest)
      · have hescape := gives_numberedEscape hhex hlt (by simpa using hlead)
        by_cases hsurrogate :
            isSurrogate (UInt16.ofNat (((d₁ * 16 + d₂) * 16 + d₃) * 16 + d₄)) = true
        · rw [if_pos hsurrogate] at hescape
          rw [charsOf?_cons_of_isSurrogate hsurrogate fun h => absurd h hlead]
          exact gives_bind_of_error hescape
        · rw [if_neg hsurrogate] at hescape
          refine hescape.bind_some fun k' hk' =>
            hnext hbody (by simp only [List.length_cons]; omega) hk' ?_
          rw [charsOf?_cons (by simpa using hsurrogate), toNat_ofNat_of_lt hlt]

/-- A string, read after its opening quote. -/
theorem gives_string {us : List UInt16} {body : List Char} (hbody : StringBody us body)
    {k : Cursor} {rest : List Char} (h : k.rest = body ++ '\x22' :: rest) :
    Gives k.string (textOf? us) rest := by
  have hlength : body.length < k.rest.length + 1 := by
    rw [h, List.length_append]
    omega
  simpa [string, textOf?] using gives_stringInto _ hbody [] h hlength

theorem passes_skipEscape_letter {k : Cursor} {letter c : Char} {rest : List Char}
    (hmem : (letter, c) ∈ letterEscapes) (h : k.rest = letter :: rest) :
    Passes k.skipEscape rest := by
  obtain ⟨hlookup, hu, -, -⟩ := lookup_of_mem_letterEscapes hmem
  unfold skipEscape
  split
  · rename_i heq
    simp [h] at heq
  · rename_i heq
    exact absurd (List.cons.inj (h.symm.trans heq)).1 hu
  · rename_i c' _ heq
    obtain ⟨rfl, -⟩ := List.cons.inj (h.symm.trans heq)
    rw [hlookup]
    exact ⟨_, rfl, rest_advance h⟩

theorem skipStringWithin_escape {k : Cursor} {rest : List Char} (h : k.rest = '\\' :: rest)
    (fuel : Nat) : skipStringWithin (fuel + 1) k =
      k.advance.skipEscape >>= fun k => skipStringWithin fuel k := by
  rw [skipStringWithin, h]
  rfl

theorem skipStringWithin_plain {k : Cursor} {c : Char} {rest : List Char} (h : k.rest = c :: rest)
    (hquote : c ≠ '\x22') (hslash : c ≠ '\\') (hc : 0x20 ≤ c.toNat) (fuel : Nat) :
    skipStringWithin (fuel + 1) k = skipStringWithin fuel k.advance := by
  rw [skipStringWithin]
  split
  · rename_i heq
    simp [h] at heq
  · rename_i heq
    exact absurd (List.cons.inj (h.symm.trans heq)).1 hquote
  · rename_i heq
    exact absurd (List.cons.inj (h.symm.trans heq)).1 hslash
  · rename_i heq
    obtain ⟨rfl, -⟩ := List.cons.inj (h.symm.trans heq)
    exact if_neg (by omega)

theorem passes_skipStringWithin {us : List UInt16} {body : List Char} (hbody : StringBody us body) :
    ∀ {k : Cursor} {rest : List Char} {fuel : Nat}, k.rest = body ++ '\x22' :: rest →
      body.length < fuel → Passes (skipStringWithin fuel k) rest := by
  induction hbody with
  | nil =>
    rintro k rest (_ | fuel) h hfuel
    · exact absurd hfuel (Nat.not_lt_zero _)
    · rw [skipStringWithin, h]
      exact ⟨_, rfl, rest_advance h⟩
  | plain hquote hslash hc _ ih =>
    rintro k rest (_ | fuel) h hfuel
    · exact absurd hfuel (Nat.not_lt_zero _)
    · rw [skipStringWithin_plain h hquote hslash hc]
      exact ih (rest_advance h) (by simpa using hfuel)
  | letter hmem _ ih =>
    rintro k rest (_ | fuel) h hfuel
    · exact absurd hfuel (Nat.not_lt_zero _)
    · rw [skipStringWithin_escape h]
      exact (passes_skipEscape_letter hmem (rest_advance h)).bind_passes fun k' hk' =>
        ih hk' (by simp only [List.length_cons] at hfuel; omega)
  | numbered h₁ h₂ h₃ h₄ _ ih =>
    rintro k rest (_ | fuel) h hfuel
    · exact absurd hfuel (Nat.not_lt_zero _)
    · have hu := rest_advance h
      have hskip : k.advance.skipEscape = k.advance.advance.hexUnit >>= fun x => pure x.2 := by
        rw [skipEscape, hu]
        rfl
      obtain ⟨k', hk', hrest⟩ := gives_hexUnit (rest_advance hu) h₁ h₂ h₃ h₄
      rw [skipStringWithin_escape h, hskip, hk']
      exact ih hrest (by simp only [List.length_cons] at hfuel; omega)

/-- Past a string, after its opening quote; its surrogates need not be paired. -/
theorem passes_skipString {us : List UInt16} {body : List Char} (hbody : StringBody us body)
    {k : Cursor} {rest : List Char} (h : k.rest = body ++ '\x22' :: rest) :
    Passes k.skipString rest := by
  refine passes_skipStringWithin hbody h ?_
  rw [h, List.length_append]
  omega

end GraphFolding.Json.Cursor
