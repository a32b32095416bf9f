/-
Reading undoes escaping.

A character is written as it is, or as a reference that stands for it:

* `EscapedBy` — the two ways, and what is read of each;
* `attributeValue_escapeAttribute` — the value of an escaped attribute is the value itself;
* `readText`, `Builder.characterData_escapeText` — what is read of escaped text, in which a
  carriage return counts as a line end unless it stands beside a reference;
* `readText_of_no_return` — without carriage returns it is the text itself.
-/
import GraphFolding.Proofs.Reading
import GraphFolding.Xml.CharacterData
import GraphFolding.Xml.Escape
namespace GraphFolding.Xml

/-- A character is written as it is, or as a reference to it. -/
inductive EscapedBy (c : Char) : List Char → Prop where
  | plain (h : c ≠ '&') : EscapedBy c [c]
  | reference {body : List Char}
      (h : ∀ (place : Position) rest, (⟨place, '&' :: body ++ rest⟩ : Cursor).reference? =
        some (.char c, ⟨place.afterAll ('&' :: body), rest⟩)) : EscapedBy c ('&' :: body)

theorem escapedBy_escapeTextChar (c : Char) : EscapedBy c (escapeTextChar c) := by
  unfold escapeTextChar
  split
  · exact .reference fun _ _ => rfl
  · exact .reference fun _ _ => rfl
  · exact .reference fun _ _ => rfl
  · rename_i h _ _
    exact .plain h

theorem escapedBy_escapeAttributeChar (c : Char) : EscapedBy c (escapeAttributeChar c) := by
  unfold escapeAttributeChar
  split
  · exact .reference fun _ _ => rfl
  · exact .reference fun _ _ => rfl
  · exact .reference fun _ _ => rfl
  · exact .reference fun _ _ => rfl
  · exact escapedBy_escapeTextChar c

/-! ### Attribute values -/

/-- What is written as it is in an attribute value is no blank but the space. -/
theorem spaced_of_escapeAttributeChar {c : Char} (h : escapeAttributeChar c = [c]) :
    spaced c = c := by
  unfold escapeAttributeChar at h
  split at h
  · simp at h
  · simp at h
  · simp at h
  · simp at h
  · rename_i hnewline hreturn htab
    by_cases hspace : c = ' '
    · rw [hspace]
      rfl
    · have hblank : isBlank c = false := by
        have hn : c ≠ '\n' := hnewline
        have hr : c ≠ '\r' := hreturn
        have ht : c ≠ '\t' := htab
        simp [isBlank, hspace, hn, hr, ht]
      rw [spaced, hblank]
      rfl

theorem ne_of_mem_escapeAttributeChar {c x : Char} (h : x ∈ escapeAttributeChar c) :
    x ≠ '\x22' ∧ x ≠ '<' := by
  have hconst : ∀ {s : String}, s.toList.all (fun y => y ≠ '\x22' && y ≠ '<') = true →
      x ∈ s.toList → x ≠ '\x22' ∧ x ≠ '<' := by
    intro s hall hx
    simpa using List.all_eq_true.mp hall x hx
  unfold escapeAttributeChar at h
  split at h
  · exact hconst (by decide) h
  · exact hconst (by decide) h
  · exact hconst (by decide) h
  · exact hconst (by decide) h
  · rename_i hquote _ _ _
    unfold escapeTextChar at h
    split at h
    · exact hconst (by decide) h
    · exact hconst (by decide) h
    · exact hconst (by decide) h
    · rename_i _ hless _
      obtain rfl := List.mem_singleton.mp h
      exact ⟨hquote, hless⟩

theorem forall_mem_escapeTextChar (c : Char) :
    (∀ x ∈ escapeTextChar c, isAllowed x = true) ↔ isAllowed c = true := by
  unfold escapeTextChar
  split
  · exact iff_of_true (List.all_eq_true.mp (by decide)) (by decide)
  · exact iff_of_true (List.all_eq_true.mp (by decide)) (by decide)
  · exact iff_of_true (List.all_eq_true.mp (by decide)) (by decide)
  · simp

theorem forall_mem_escapeAttributeChar (c : Char) :
    (∀ x ∈ escapeAttributeChar c, isAllowed x = true) ↔ isAllowed c = true := by
  unfold escapeAttributeChar
  split
  · exact iff_of_true (List.all_eq_true.mp (by decide)) (by decide)
  · exact iff_of_true (List.all_eq_true.mp (by decide)) (by decide)
  · exact iff_of_true (List.all_eq_true.mp (by decide)) (by decide)
  · exact iff_of_true (List.all_eq_true.mp (by decide)) (by decide)
  · exact forall_mem_escapeTextChar c

section AttributeValue

variable (entities : Entities)
  (replace : List Char → Nat → Position → Cursor → Except Error (List Char × Nat))
  (references : Nat)

theorem attributeValueWith_plain {c : Char} (hc : c ≠ '&') (hreturn : c ≠ '\r') (fuel : Nat)
    (found rest : List Char) (place : Position) :
    attributeValueWith entities false replace (fuel + 1) found references ⟨place, c :: rest⟩ =
      attributeValueWith entities false replace fuel (spaced c :: found) references
        ⟨place.after c, rest⟩ := by
  rw [attributeValueWith]
  split
  · rename_i h
    simp at h
  · rename_i h
    exact absurd (List.cons.inj h).1 hc
  · rename_i h
    exact absurd (List.cons.inj h).1 hreturn
  · rename_i h
    rw [← (List.cons.inj h).1]
    rfl

theorem attributeValueWith_reference {c : Char} {body : List Char}
    (h : ∀ (place : Position) rest, (⟨place, '&' :: body ++ rest⟩ : Cursor).reference? =
      some (.char c, ⟨place.afterAll ('&' :: body), rest⟩)) (fuel : Nat)
    (found rest : List Char) (place : Position) :
    attributeValueWith entities false replace (fuel + 1) found references
        ⟨place, '&' :: body ++ rest⟩ =
      attributeValueWith entities false replace fuel (c :: found) references
        ⟨place.afterAll ('&' :: body), rest⟩ := by
  rw [List.cons_append, attributeValueWith]
  simp only []
  rw [← List.cons_append, h]
  simp

/-- An escaped value is read as the value itself. -/
theorem attributeValueWith_escaped {value : List Char} : ∀ {fuel : Nat} (found : List Char)
    (place : Position), (value.flatMap escapeAttributeChar).length ≤ fuel →
    attributeValueWith entities false replace fuel found references
      ⟨place, value.flatMap escapeAttributeChar⟩ = .ok (value.reverse ++ found, references) := by
  induction value with
  | nil =>
    intro fuel found place _
    cases fuel <;> rfl
  | cons c value ih =>
    intro fuel found place hfuel
    have hescaped := escapedBy_escapeAttributeChar c
    have hspaced := spaced_of_escapeAttributeChar (c := c)
    rw [List.flatMap_cons, List.length_append] at hfuel
    rw [List.flatMap_cons]
    -- One case for what stands for itself and one for references, not one for each character.
    generalize escapeAttributeChar c = written at hescaped hspaced hfuel ⊢
    rw [List.reverse_cons, List.append_assoc]
    cases hescaped with
    | plain hc =>
      rw [List.length_singleton] at hfuel
      obtain ⟨fuel, rfl⟩ : ∃ n, fuel = n + 1 := ⟨fuel - 1, by omega⟩
      have hreturn : c ≠ '\r' := by
        rintro rfl
        exact absurd (hspaced rfl) (by decide)
      rw [List.singleton_append, attributeValueWith_plain entities replace references hc hreturn,
        hspaced rfl]
      exact ih (c :: found) _ (by omega)
    | reference href =>
      rw [List.length_cons] at hfuel
      obtain ⟨fuel, rfl⟩ : ∃ n, fuel = n + 1 := ⟨fuel - 1, by omega⟩
      rw [attributeValueWith_reference entities replace references href]
      exact ih (c :: found) _ (by omega)

end AttributeValue

/-- The value of an escaped attribute is the value itself. -/
theorem attributeValue_escapeAttribute (entities : Entities) (references : Nat) (value : String)
    (place : Position) : attributeValue entities Expansion.maxLevels references
      ⟨place, (escapeAttribute value).toList⟩ = .ok (value, references) := by
  have hread := attributeValueWith_escaped entities
    (attributeReplacement entities Expansion.maxLevels) references [] place
    (Nat.le_refl (value.toList.flatMap escapeAttributeChar).length)
  rw [attributeValue, escapeAttribute, String.toList_ofList]
  have hinside : Expansion.isInside Expansion.maxLevels = false := by decide
  rw [hinside, hread]
  simp [bind, Except.bind, pure, Except.pure]

theorem ne_of_mem_escapeAttribute {value : String} {x : Char}
    (h : x ∈ (escapeAttribute value).toList) : x ≠ '\x22' ∧ x ≠ '<' := by
  rw [escapeAttribute, String.toList_ofList] at h
  obtain ⟨c, -, hx⟩ := List.mem_flatMap.mp h
  exact ne_of_mem_escapeAttributeChar hx

/-- Escaping an attribute value neither adds nor removes forbidden characters. -/
theorem forall_mem_escapeAttribute (value : String) :
    (∀ x ∈ (escapeAttribute value).toList, isAllowed x = true) ↔
      ∀ c ∈ value.toList, isAllowed c = true := by
  rw [escapeAttribute, String.toList_ofList, List.forall_mem_flatMap]
  exact forall₂_congr fun c _ => forall_mem_escapeAttributeChar c

/-! ### Character data -/

/-- A character that is written as a reference in character data. -/
def isMarked (c : Char) : Bool := c = '&' || c = '<' || c = '>'

/-- What is read of escaped text, in reverse, after data in reverse.  The character after a
reference is taken as it is (`verbatim`). -/
def readTextInto : List Char → Bool → List Char → List Char
  | data, _, [] => data
  | data, verbatim, c :: rest =>
    if isMarked c then readTextInto (c :: data) true rest
    else readTextInto (if verbatim then c :: data else pushData rest.isEmpty c data) false rest

/-- What is read of escaped text. -/
def readText (value : String) : String :=
  String.ofList (readTextInto [] false value.toList).reverse

theorem escapeTextChar_of_not_isMarked {c : Char} (h : isMarked c = false) :
    escapeTextChar c = [c] := by
  simp only [isMarked, Bool.or_eq_false_iff, decide_eq_false_iff_not] at h
  unfold escapeTextChar
  split
  · exact absurd rfl h.1.1
  · exact absurd rfl h.1.2
  · exact absurd rfl h.2
  · rfl

theorem exists_reference_of_isMarked {c : Char} (h : isMarked c = true) :
    ∃ body, escapeTextChar c = '&' :: body ∧ ∀ (place : Position) rest,
      (⟨place, '&' :: body ++ rest⟩ : Cursor).reference? =
        some (.char c, ⟨place.afterAll ('&' :: body), rest⟩) := by
  simp only [isMarked, Bool.or_eq_true, decide_eq_true_eq] at h
  rcases h with (rfl | rfl) | rfl
  · exact ⟨_, rfl, fun _ _ => rfl⟩
  · exact ⟨_, rfl, fun _ _ => rfl⟩
  · exact ⟨_, rfl, fun _ _ => rfl⟩

theorem escapeTextChar_ne_nil (c : Char) : escapeTextChar c ≠ [] := by
  have hescaped := escapedBy_escapeTextChar c
  intro h
  rw [h] at hescaped
  cases hescaped

theorem isEmpty_flatMap_escapeTextChar (value : List Char) :
    (value.flatMap escapeTextChar).isEmpty = value.isEmpty := by
  cases value with
  | nil => rfl
  | cons c value => simp [escapeTextChar_ne_nil]

theorem pushData_of_no_return {c : Char} (hc : c ≠ '\r') (isLast : Bool) {data : List Char}
    (hdata : '\r' ∉ data) : pushData isLast c data = c :: data := by
  unfold pushData
  split
  · simp at hdata
  · simp [hc]

theorem readTextInto_of_no_return {value : List Char} : ∀ {data : List Char} (verbatim : Bool),
    '\r' ∉ value → '\r' ∉ data → readTextInto data verbatim value = value.reverse ++ data := by
  induction value with
  | nil => exact fun _ _ _ => rfl
  | cons c value ih =>
    intro data verbatim hvalue hdata
    rw [List.mem_cons, not_or] at hvalue
    have hdata' : '\r' ∉ c :: data := by simp [hdata, hvalue.1]
    have hpush := pushData_of_no_return (Ne.symm hvalue.1) value.isEmpty hdata
    rw [readTextInto, hpush, ite_self, ih true hvalue.2 hdata', ih false hvalue.2 hdata', ite_self]
    simp

/-- Without carriage returns, escaped text is read as the text itself. -/
theorem readText_of_no_return {value : String} (h : '\r' ∉ value.toList) :
    readText value = value := by
  rw [readText, readTextInto_of_no_return false h (by simp), List.append_nil,
    List.reverse_reverse, String.ofList_toList]

theorem pushData_ne_nil (isLast : Bool) (c : Char) (data : List Char) :
    pushData isLast c data ≠ [] := by
  unfold pushData
  split
  · split
    · simp
    · split
      · simp
      · simp
  · split
    · simp
    · simp

theorem readTextInto_ne_nil (value : List Char) : ∀ {data : List Char} (verbatim : Bool),
    data ≠ [] ∨ value ≠ [] → readTextInto data verbatim value ≠ [] := by
  induction value with
  | nil => exact fun _ h => h.resolve_right (by simp)
  | cons c value ih =>
    intro data verbatim _
    rw [readTextInto]
    split
    · exact ih true (.inl (by simp))
    · refine ih false (.inl ?_)
      split
      · simp
      · exact pushData_ne_nil _ _ _

theorem ne_of_mem_escapeTextChar {c x : Char} (h : x ∈ escapeTextChar c) : x ≠ '<' ∧ x ≠ '>' := by
  have hconst : ∀ {s : String}, s.toList.all (fun y => y ≠ '<' && y ≠ '>') = true →
      x ∈ s.toList → x ≠ '<' ∧ x ≠ '>' := by
    intro s hall hx
    simpa using List.all_eq_true.mp hall x hx
  unfold escapeTextChar at h
  split at h
  · exact hconst (by decide) h
  · exact hconst (by decide) h
  · exact hconst (by decide) h
  · rename_i _ hless hgreater
    obtain rfl := List.mem_singleton.mp h
    exact ⟨hless, hgreater⟩

theorem ne_of_mem_escapeText {value : String} {x : Char} (h : x ∈ (escapeText value).toList) :
    x ≠ '<' ∧ x ≠ '>' := by
  rw [escapeText, String.toList_ofList] at h
  obtain ⟨c, -, hx⟩ := List.mem_flatMap.mp h
  exact ne_of_mem_escapeTextChar hx

/-- Escaping text neither adds nor removes forbidden characters. -/
theorem forall_mem_escapeText (value : String) :
    (∀ x ∈ (escapeText value).toList, isAllowed x = true) ↔
      ∀ c ∈ value.toList, isAllowed c = true := by
  rw [escapeText, String.toList_ofList, List.forall_mem_flatMap]
  exact forall₂_congr fun c _ => forall_mem_escapeTextChar c

namespace Builder

section CharacterData

variable (replace : Builder → Position → Cursor → Except Error Builder) (b : Builder)

theorem characterDataWith_plain {c : Char} (hc : c ≠ '&') (fuel : Nat) (data : List Char)
    (verbatim : Bool) (rest : List Char) (place : Position) :
    characterDataWith false replace (fuel + 1) data verbatim b ⟨place, c :: rest⟩ =
      characterDataWith false replace fuel
        (if verbatim then c :: data else pushData rest.isEmpty c data) false b
        ⟨place.after c, rest⟩ := by
  rw [characterDataWith]
  split
  · rename_i h
    simp at h
  · rename_i h
    exact absurd (List.cons.inj h).1 hc
  · rename_i h
    obtain ⟨rfl, rfl⟩ := List.cons.inj h
    rfl

theorem characterDataWith_reference {c : Char} {body : List Char}
    (h : ∀ (place : Position) rest, (⟨place, '&' :: body ++ rest⟩ : Cursor).reference? =
      some (.char c, ⟨place.afterAll ('&' :: body), rest⟩)) (fuel : Nat)
    (data : List Char) (verbatim : Bool) (rest : List Char) (place : Position) :
    characterDataWith false replace (fuel + 1) data verbatim b ⟨place, '&' :: body ++ rest⟩ =
      characterDataWith false replace fuel (c :: data) true b
        ⟨place.afterAll ('&' :: body), rest⟩ := by
  rw [List.cons_append, characterDataWith]
  simp only []
  rw [← List.cons_append, h]
  simp

theorem characterDataWith_escaped {value : List Char} : ∀ {fuel : Nat} (data : List Char)
    (verbatim : Bool) (place : Position), (value.flatMap escapeTextChar).length ≤ fuel →
    characterDataWith false replace fuel data verbatim b ⟨place, value.flatMap escapeTextChar⟩ =
      .ok (b.flush (readTextInto data verbatim value)) := by
  induction value with
  | nil =>
    intro fuel data verbatim place _
    cases fuel <;> rfl
  | cons c value ih =>
    intro fuel data verbatim place hfuel
    rw [List.flatMap_cons, List.length_append] at hfuel
    rw [List.flatMap_cons, readTextInto]
    cases hmarked : isMarked c with
    | false =>
      have hc : c ≠ '&' := by
        rintro rfl
        exact absurd hmarked (by decide)
      rw [escapeTextChar_of_not_isMarked hmarked, List.length_singleton] at hfuel
      obtain ⟨fuel, rfl⟩ : ∃ n, fuel = n + 1 := ⟨fuel - 1, by omega⟩
      rw [escapeTextChar_of_not_isMarked hmarked, List.singleton_append,
        characterDataWith_plain replace b hc, isEmpty_flatMap_escapeTextChar]
      exact ih _ _ _ (by omega)
    | true =>
      obtain ⟨body, hwritten, href⟩ := exists_reference_of_isMarked hmarked
      rw [hwritten, List.length_cons] at hfuel
      obtain ⟨fuel, rfl⟩ : ∃ n, fuel = n + 1 := ⟨fuel - 1, by omega⟩
      rw [hwritten, characterDataWith_reference replace b href]
      exact ih _ _ _ (by omega)

/-- What is read of escaped text as character data. -/
theorem characterData_escapeText {value : String} (hne : value ≠ "") (place : Position) :
    b.characterData false replace ⟨place, (escapeText value).toList⟩ =
      .ok (b.appendText (readText value)) := by
  have hread := characterDataWith_escaped replace b [] false place
    (Nat.le_refl (value.toList.flatMap escapeTextChar).length)
  have hlist : readTextInto [] false value.toList ≠ [] :=
    readTextInto_ne_nil _ _ (.inr fun h => hne (String.toList_eq_nil_iff.mp h))
  rw [characterData, escapeText, String.toList_ofList, hread, flush,
    if_neg (by simpa using hlist), readText]

end CharacterData

end Builder
end GraphFolding.Xml
