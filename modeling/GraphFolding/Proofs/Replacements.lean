/-
Escaping as replacements made one after the other, and how reading undoes it.

A character is replaced in the whole text before the next one is, so that a later replacement
could also change what an earlier one has put in:

* `replaced`, `replacedAll` — one replacement, and several of them in turn;
* `foldl_replaced` — they do what each of them does alone, if none changes the text put in by an
  earlier one (`Undisturbed`); the ampersand has to come first;
* `escapeText_eq_replacedAll`, `escapeAttribute_eq_replacedAll` — escaping is made of such
  replacements;
* `eq_space_of_mem_escapeAttribute` — no blank but the space is left in an attribute value;
* `escaping_undone` — what is written, and that reading it gives the text back.
-/
import GraphFolding.Proofs.Escaping
namespace GraphFolding.Xml

/-! ### Replacements -/

/-- A text in which a character is replaced by others wherever it occurs. -/
def replaced (s : List Char) (r : Char × String) : List Char :=
  s.flatMap fun c => if c = r.1 then r.2.toList else [c]

/-- A text after several replacements, each of which goes through the whole text. -/
def replacedAll (s : String) (rs : List (Char × String)) : String :=
  String.ofList (rs.foldl replaced s.toList)

/-- What is replaced in character data. -/
def textReplacements : List (Char × String) := [('&', "&amp;"), ('<', "&lt;"), ('>', "&gt;")]

/-- What is replaced in an attribute value. -/
def attributeReplacements : List (Char × String) :=
  textReplacements ++ [('\x22', "&quot;"), ('\n', "&#10;"), ('\r', "&#13;"), ('\t', "&#9;")]

/-- Whether no replacement is one of a character that an earlier one replaces or puts in. -/
def Undisturbed (rs : List (Char × String)) : Prop :=
  rs.Pairwise fun r r' => r'.1 ≠ r.1 ∧ r'.1 ∉ r.2.toList

instance decidableUndisturbed (rs : List (Char × String)) : Decidable (Undisturbed rs) :=
  inferInstanceAs (Decidable (rs.Pairwise _))

/-- What a character becomes when only the replacement of itself is made. -/
def replacement (rs : List (Char × String)) (c : Char) : List Char :=
  ((rs.lookup c).map String.toList).getD [c]

theorem replacement_append (rs : List (Char × String)) {rs' : List (Char × String)} {c : Char}
    (h : ∀ r ∈ rs', r.1 ≠ c) : replacement (rs ++ rs') c = replacement rs c := by
  have hnone : rs'.lookup c = none := by
    rw [List.lookup_eq_none_iff]
    intro r hr
    simpa using (h r hr).symm
  rw [replacement, List.lookup_append, hnone, Option.or_none, replacement]

theorem replacement_of_forall_ne {rs : List (Char × String)} {c : Char}
    (h : ∀ r ∈ rs, r.1 ≠ c) : replacement rs c = [c] :=
  replacement_append [] h

theorem replacement_cons (r : Char × String) (rs : List (Char × String)) (c : Char) :
    replacement (r :: rs) c = if c = r.1 then r.2.toList else replacement rs c := by
  rw [replacement, List.lookup_cons]
  by_cases h : c = r.1
  · simp [h]
  · have hne : (c == r.1) = false := beq_false_of_ne h
    rw [hne, if_neg h]
    rfl

/-- Replacements in turn do what each of them does alone, if none disturbs an earlier one. -/
theorem foldl_replaced {rs : List (Char × String)} (h : Undisturbed rs) : ∀ s : List Char,
    rs.foldl replaced s = s.flatMap (replacement rs) := by
  induction rs with
  | nil => exact fun s => (List.flatMap_singleton' s).symm
  | cons r rs ih =>
    intro s
    obtain ⟨hlater, hrest⟩ := List.pairwise_cons.mp h
    rw [List.foldl_cons, ih hrest, replaced, List.flatMap_assoc]
    congr 1
    funext c
    rw [replacement_cons]
    split
    · -- What was put in stays, since no later replacement is of one of its characters.
      have hkept : ∀ x ∈ r.2.toList, replacement rs x = [x] := by
        refine fun x hx => replacement_of_forall_ne fun r' hr' => ?_
        rintro rfl
        exact (hlater r' hr').2 hx
      rw [List.flatMap_def, List.map_congr_left hkept, ← List.flatMap_def,
        List.flatMap_singleton']
    · rw [List.flatMap_singleton]

theorem escapeTextChar_eq_replacement (c : Char) :
    escapeTextChar c = replacement textReplacements c := by
  unfold escapeTextChar
  split
  · rfl
  · rfl
  · rfl
  · rename_i hamp hless hgreater
    have hplain : ∀ r ∈ textReplacements, r.1 ≠ c := by
      simp only [textReplacements, List.forall_mem_cons]
      exact ⟨Ne.symm hamp, Ne.symm hless, Ne.symm hgreater, nofun⟩
    exact (replacement_of_forall_ne hplain).symm

theorem escapeAttributeChar_eq_replacement (c : Char) :
    escapeAttributeChar c = replacement attributeReplacements c := by
  unfold escapeAttributeChar
  split
  · rfl
  · rfl
  · rfl
  · rfl
  · rename_i hquote hnewline hreturn htab
    rw [escapeTextChar_eq_replacement, attributeReplacements, replacement_append]
    simp only [List.forall_mem_cons]
    exact ⟨Ne.symm hquote, Ne.symm hnewline, Ne.symm hreturn, Ne.symm htab, nofun⟩

theorem escapeText_eq_replacedAll (s : String) :
    escapeText s = replacedAll s textReplacements := by
  rw [escapeText, replacedAll, foldl_replaced (by decide), funext escapeTextChar_eq_replacement]

theorem escapeAttribute_eq_replacedAll (s : String) :
    escapeAttribute s = replacedAll s attributeReplacements := by
  rw [escapeAttribute, replacedAll, foldl_replaced (by decide),
    funext escapeAttributeChar_eq_replacement]

/-- With the ampersand last, the text put in for an angle bracket would be changed again. -/
example : replacedAll "<" textReplacements = "&lt;" ∧
    replacedAll "<" textReplacements.reverse = "&amp;lt;" := by decide

/-! ### What is written -/

/-- In an attribute value no blank but the space is written as it is. -/
theorem eq_space_of_mem_escapeAttributeChar {c x : Char} (h : x ∈ escapeAttributeChar c)
    (hx : isBlank x = true) : x = ' ' := by
  have hconst : ∀ {s : String}, s.toList.all (fun y => !isBlank y) = true → x ∈ s.toList →
      x = ' ' := by
    intro s hall hmem
    have hno := List.all_eq_true.mp hall x hmem
    simp [hx] at hno
  unfold escapeAttributeChar at h
  split at h
  · exact hconst (by decide) h
  · exact hconst (by decide) h
  · exact hconst (by decide) h
  · exact hconst (by decide) h
  · rename_i _ hnewline hreturn htab
    unfold escapeTextChar at h
    split at h
    · exact hconst (by decide) h
    · exact hconst (by decide) h
    · exact hconst (by decide) h
    · obtain rfl := List.mem_singleton.mp h
      have hn : x ≠ '\n' := hnewline
      have hr : x ≠ '\r' := hreturn
      have ht : x ≠ '\t' := htab
      simpa [isBlank, hn, hr, ht] using hx

theorem eq_space_of_mem_escapeAttribute {value : String} {x : Char}
    (h : x ∈ (escapeAttribute value).toList) (hx : isBlank x = true) : x = ' ' := by
  rw [escapeAttribute, String.toList_ofList] at h
  obtain ⟨c, -, hc⟩ := List.mem_flatMap.mp h
  exact eq_space_of_mem_escapeAttributeChar hc hx

/-- What an escaped attribute value is made of. -/
theorem forall_mem_escapeAttribute_ne (value : String) : ∀ x ∈ (escapeAttribute value).toList,
    x ≠ '<' ∧ x ≠ '\x22' ∧ x ≠ '\t' ∧ x ≠ '\n' ∧ x ≠ '\r' := by
  intro x hx
  obtain ⟨hquote, hless⟩ := ne_of_mem_escapeAttribute hx
  refine ⟨hless, hquote, ?_, ?_, ?_⟩
  · rintro rfl
    exact absurd (eq_space_of_mem_escapeAttribute hx rfl) (by decide)
  · rintro rfl
    exact absurd (eq_space_of_mem_escapeAttribute hx rfl) (by decide)
  · rintro rfl
    exact absurd (eq_space_of_mem_escapeAttribute hx rfl) (by decide)

/-- Escaped text holds no end of a CDATA section. -/
theorem not_infix_escapeText (value : String) :
    ¬"]]>".toList <:+: (escapeText value).toList := by
  intro h
  have hmem : '>' ∈ (escapeText value).toList := h.subset (by decide)
  exact (ne_of_mem_escapeText hmem).2 rfl

/-! ### What is read -/

/-- Without carriage returns, escaped text is read as the text itself; of no text nothing is read. -/
theorem characterData_escapeText_of_no_return {value : String} (h : '\r' ∉ value.toList)
    (replace : Builder → Position → Cursor → Except Error Builder) (b : Builder)
    (place : Position) : b.characterData false replace ⟨place, (escapeText value).toList⟩ =
      .ok (if value = "" then b else b.appendText value) := by
  by_cases hempty : value = ""
  · subst hempty
    rfl
  · rw [if_neg hempty, Builder.characterData_escapeText replace b hempty, readText_of_no_return h]

/-- Reading undoes escaping, also of a text that looks escaped itself.  An attribute value, in which
a raw blank would become a space, comes back whatever it is; character data, in which a raw
carriage return would count as a line end, comes back if it holds none. -/
theorem escaping_undone (s : String) :
    (escapeAttribute s = replacedAll s attributeReplacements ∧
      (∀ x ∈ (escapeAttribute s).toList,
        x ≠ '<' ∧ x ≠ '\x22' ∧ x ≠ '\t' ∧ x ≠ '\n' ∧ x ≠ '\r') ∧
      ((∀ x ∈ (escapeAttribute s).toList, isAllowed x = true) ↔
        ∀ c ∈ s.toList, isAllowed c = true) ∧
      ∀ (entities : Entities) (references : Nat) (place : Position),
        attributeValue entities Expansion.maxLevels references
          ⟨place, (escapeAttribute s).toList⟩ = .ok (s, references)) ∧
    escapeText s = replacedAll s textReplacements ∧
      '<' ∉ (escapeText s).toList ∧ ¬"]]>".toList <:+: (escapeText s).toList ∧
      ((∀ x ∈ (escapeText s).toList, isAllowed x = true) ↔
        ∀ c ∈ s.toList, isAllowed c = true) ∧
      ('\r' ∉ s.toList → ∀ (replace : Builder → Position → Cursor → Except Error Builder)
        (b : Builder) (place : Position),
        b.characterData false replace ⟨place, (escapeText s).toList⟩ =
          .ok (if s = "" then b else b.appendText s)) := by
  refine ⟨⟨escapeAttribute_eq_replacedAll s, forall_mem_escapeAttribute_ne s,
    forall_mem_escapeAttribute s, ?_⟩, escapeText_eq_replacedAll s, ?_, not_infix_escapeText s,
    forall_mem_escapeText s, characterData_escapeText_of_no_return⟩
  · intro entities references place
    exact attributeValue_escapeAttribute entities references s place
  · intro h
    exact (ne_of_mem_escapeText h).1 rfl

end GraphFolding.Xml
