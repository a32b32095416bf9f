/-
Reading past known text.

A cursor that stands before a known text and something else stands, after reading that text,
before the something else:

* `Cursor.span_append`, `Cursor.spanAllowed_append` — characters up to a place;
* `Cursor.expectChar_cons`, `Cursor.expectText_append` — what must come next;
* `Cursor.name_append`, `Cursor.qualifiedName_append` — names.

What is read may be refused.  `Yields` says exactly when: a reading goes on as another one
under a condition, and fails without it.
-/
import GraphFolding.Xml.Document
namespace GraphFolding

/-! ### Conditions of reading -/

theorem eq_ok_of_toOption {ε α : Type} {x : Except ε α} {a : α} (h : x.toOption = some a) :
    x = .ok a := by
  cases x with
  | error e => simp [Except.toOption] at h
  | ok b => exact congrArg Except.ok (Option.some_inj.mp h)

namespace Xml

theorem ok_bind {ε α β : Type} (a : α) (f : α → Except ε β) : (.ok a >>= f) = f a := rfl

/-- A computation that goes on as another one under a condition, and fails without it. -/
structure Yields {ε α : Type} (C : Prop) (x y : Except ε α) : Prop where
  eq : C → x = y
  fails : ¬C → ∃ e, x = .error e

namespace Yields

variable {ε α β : Type} {C C' : Prop} {x y z : Except ε α}

theorem of_eq (h : x = y) : Yields True x y := ⟨fun _ => h, fun h => absurd trivial h⟩

theorem of_not {e : ε} (hC : ¬C) (h : x = .error e) : Yields C x y :=
  ⟨fun h' => absurd h' hC, fun _ => ⟨e, h⟩⟩

theorem congr (h : Yields C x y) (hC : C ↔ C') : Yields C' x y :=
  ⟨fun h' => h.eq (hC.mpr h'), fun h' => h.fails fun hc => h' (hC.mp hc)⟩

theorem trans (h : Yields C x y) (h' : Yields C' y z) : Yields (C ∧ C') x z := by
  constructor
  · intro hC
    exact (h.eq hC.1).trans (h'.eq hC.2)
  · intro hC
    by_cases hfirst : C
    · obtain ⟨e, he⟩ := h'.fails fun hsecond => hC ⟨hfirst, hsecond⟩
      exact ⟨e, (h.eq hfirst).trans he⟩
    · exact h.fails hfirst

/-- What follows a reading that has succeeded. -/
theorem bind {a : α} (h : Yields C x (.ok a)) (f : α → Except ε β) : Yields C (x >>= f) (f a) := by
  constructor
  · intro hC
    rw [h.eq hC]
    rfl
  · intro hC
    obtain ⟨e, he⟩ := h.fails hC
    exact ⟨e, by rw [he]; rfl⟩

/-- A fault that is looked for before anything else. -/
theorem guard {p : Prop} [Decidable p] {e : ε} (h : Yields C x y) :
    Yields (¬p ∧ C) (if p then .error e else x) y := by
  by_cases hp : p
  · exact .of_not (fun h => h.1 hp) (if_pos hp)
  · rw [if_neg hp]
    exact h.congr (by simp [hp])

theorem eq_ok_iff {a b : α} (h : Yields C x (.ok a)) : x = .ok b ↔ C ∧ a = b := by
  constructor
  · intro hx
    by_cases hC : C
    · exact ⟨hC, Except.ok.inj ((h.eq hC).symm.trans hx)⟩
    · obtain ⟨e, he⟩ := h.fails hC
      rw [he] at hx
      exact absurd hx (by simp)
  · rintro ⟨hC, rfl⟩
    exact h.eq hC

end Yields

/-! ### Places -/

/-- The place after a text. -/
def Position.afterAll (p : Position) (cs : List Char) : Position := cs.foldl Position.after p

/-- Whether a text does not go on with a character of a class. -/
def StopsAt (p : Char → Bool) (rest : List Char) : Prop := ∀ c ∈ rest.head?, p c = false

theorem stopsAt_cons {p : Char → Bool} {c : Char} (h : p c = false) (rest : List Char) :
    StopsAt p (c :: rest) := by
  rintro x hx
  rwa [← Option.some_inj.mp hx]

namespace Cursor

variable {p : Char → Bool} {cs rest : List Char} (place : Position)

theorem spanInto_append (hcs : ∀ c ∈ cs, p c = true) (hrest : StopsAt p rest) :
    ∀ (found : List Char) (place : Position), spanInto p found place (cs ++ rest) =
      (found.reverse ++ cs, ⟨place.afterAll cs, rest⟩) := by
  induction cs with
  | nil =>
    intro found place
    rcases rest with _ | ⟨c, rest⟩
    · simp [spanInto, Position.afterAll]
    · simp [spanInto, hrest c rfl, Position.afterAll]
  | cons c cs ih =>
    intro found place
    rw [List.cons_append, spanInto, if_pos (hcs c List.mem_cons_self),
      ih fun x hx => hcs x (List.mem_cons_of_mem c hx)]
    simp [Position.afterAll]

theorem span_append (hcs : ∀ c ∈ cs, p c = true) (hrest : StopsAt p rest) :
    (⟨place, cs ++ rest⟩ : Cursor).span p = (cs, ⟨place.afterAll cs, rest⟩) :=
  spanInto_append hcs hrest [] place

theorem skipBlanks_append (hcs : ∀ c ∈ cs, isBlank c = true) (hrest : StopsAt isBlank rest) :
    (⟨place, cs ++ rest⟩ : Cursor).skipBlanks = ⟨place.afterAll cs, rest⟩ := by
  rw [skipBlanks, span_append place hcs hrest]

theorem skipBlanks_of_stopsAt (hrest : StopsAt isBlank rest) :
    (⟨place, rest⟩ : Cursor).skipBlanks = ⟨place, rest⟩ := by
  have hnil : ∀ c ∈ ([] : List Char), isBlank c = true := by simp
  exact skipBlanks_append place hnil hrest

theorem skip_append (cs rest : List Char) : ∀ (place : Position),
    skip cs.length ⟨place, cs ++ rest⟩ = ⟨place.afterAll cs, rest⟩ := by
  induction cs with
  | nil => exact fun _ => rfl
  | cons c cs ih => exact fun place => ih (place.after c)

theorem expectChar_cons (c : Char) (rest : List Char) :
    (⟨place, c :: rest⟩ : Cursor).expectChar c = .ok ⟨place.after c, rest⟩ := by
  simp [expectChar, advance]

theorem startsWith_append (s : String) (rest : List Char) :
    (⟨place, s.toList ++ rest⟩ : Cursor).startsWith s = true :=
  List.isPrefixOf_iff_prefix.mpr (List.prefix_append ..)

theorem expectText_append (s : String) (rest : List Char) :
    (⟨place, s.toList ++ rest⟩ : Cursor).expectText s =
      .ok ⟨place.afterAll s.toList, rest⟩ := by
  rw [expectText, if_pos (startsWith_append place s rest), ← String.length_toList,
    skip_append]

/-- Allowed characters up to the first place where `stop` holds; a forbidden one among them is
a fault. -/
theorem spanAllowedInto_append {stop : List Char → Bool}
    (hgo : ∀ t, t <:+ cs → t ≠ [] → stop (t ++ rest) = false)
    (hstop : rest = [] ∨ ∃ c u, rest = c :: u ∧ isAllowed c = true ∧ stop (c :: u) = true) :
    ∀ (found : List Char) (place : Position),
    Yields (∀ c ∈ cs, isAllowed c = true) (spanAllowedInto stop found place (cs ++ rest))
      (.ok (found.reverse ++ cs, ⟨place.afterAll cs, rest⟩)) := by
  induction cs with
  | nil =>
    intro found place
    refine (Yields.of_eq ?_).congr (by simp)
    rcases hstop with rfl | ⟨c, u, rfl, hc, hs⟩
    · simp [spanAllowedInto, Position.afterAll]
    · simp [spanAllowedInto, hc, hs, Position.afterAll]
  | cons c cs ih =>
    intro found place
    have hs : stop (c :: (cs ++ rest)) = false := hgo (c :: cs) List.suffix_rfl (by simp)
    have hrest := ih (fun t ht => hgo t (ht.trans (List.suffix_cons c cs))) (c :: found)
      (place.after c)
    rw [List.cons_append, spanAllowedInto]
    by_cases hc : isAllowed c = true
    · rw [hc, hs, Bool.not_true, if_neg (by simp), if_neg (by simp)]
      simpa [hc, Position.afterAll] using hrest
    · rw [if_pos (by simp [hc])]
      exact .of_not (by simp [hc]) rfl

theorem spanAllowed_append {stop : List Char → Bool}
    (hgo : ∀ t, t <:+ cs → t ≠ [] → stop (t ++ rest) = false)
    (hstop : rest = [] ∨ ∃ c u, rest = c :: u ∧ isAllowed c = true ∧ stop (c :: u) = true) :
    Yields (∀ c ∈ cs, isAllowed c = true) ((⟨place, cs ++ rest⟩ : Cursor).spanAllowed stop)
      (.ok (cs, ⟨place.afterAll cs, rest⟩)) :=
  spanAllowedInto_append hgo hstop [] place

end Cursor

/-! ### Names -/

/-- A name without a colon. -/
def IsNamePart (s : String) : Prop :=
  Cursor.beginsName s.toList = true ∧ ∀ c ∈ s.toList, isNamePartChar c = true

instance (s : String) : Decidable (IsNamePart s) :=
  decidable_of_iff (Cursor.beginsName s.toList = true ∧ s.toList.all isNamePartChar = true)
    (by simp [IsNamePart])

/-- A name, which may hold colons. -/
def IsName (s : String) : Prop :=
  Cursor.beginsName s.toList = true ∧ ∀ c ∈ s.toList, isNameChar c = true

instance (s : String) : Decidable (IsName s) :=
  decidable_of_iff (Cursor.beginsName s.toList = true ∧ s.toList.all isNameChar = true)
    (by simp [IsName])

/-- A qualified name whose parts are names. -/
def QName.IsValid (q : QName) : Prop :=
  (q.qualifier = "" ∨ IsNamePart q.qualifier) ∧ IsNamePart q.localPart

instance (q : QName) : Decidable q.IsValid := inferInstanceAs (Decidable (_ ∧ _))

theorem StopsAt.namePart {rest : List Char} (h : StopsAt isNameChar rest) :
    StopsAt isNamePartChar rest := by
  intro c hc
  rw [isNamePartChar, h c hc, Bool.false_and]

theorem StopsAt.ne_colon {rest : List Char} (h : StopsAt isNameChar rest) :
    ∀ tail, rest ≠ ':' :: tail := by
  rintro tail rfl
  have hcolon := h ':' rfl
  exact absurd hcolon (by decide)

theorem QName.text_of_qualifier {q : QName} (h : q.qualifier ≠ "") :
    q.text.toList = q.qualifier.toList ++ ':' :: q.localPart.toList := by
  rw [text, if_neg (by simpa using h)]
  simp

namespace Cursor

/-- A name is read up to the first character that cannot stand in it. -/
theorem name_append {s : String} (hs : IsName s) {rest : List Char}
    (hrest : StopsAt isNameChar rest) (place : Position) :
    (⟨place, s.toList ++ rest⟩ : Cursor).name =
      .ok (s, ⟨place.afterAll s.toList, rest⟩) := by
  obtain ⟨hbegins, hchars⟩ := hs
  rcases hlist : s.toList with _ | ⟨c, more⟩
  · simp [hlist, beginsName] at hbegins
  · rw [hlist] at hbegins hchars
    have hmore : ∀ x ∈ more, isNameChar x = true := fun x hx => hchars x (List.mem_cons_of_mem c hx)
    have hstart : isNameStart c = true := hbegins
    simp only [name, List.cons_append, hstart, if_true, advance, span_append _ hmore hrest]
    rw [← hlist, String.ofList_toList]
    simp [hlist, Position.afterAll]

/-- A qualified name is read up to the first character that cannot stand in it. -/
theorem qualifiedName_append {q : QName} (hq : q.IsValid) {rest : List Char}
    (hrest : StopsAt isNameChar rest) (place : Position) :
    (⟨place, q.text.toList ++ rest⟩ : Cursor).qualifiedName =
      .ok (q, ⟨place.afterAll q.text.toList, rest⟩) := by
  obtain ⟨hqualifier, hbegins, hchars⟩ := hq
  by_cases hempty : q.qualifier = ""
  · have htext : q.text = q.localPart := by simp [QName.text, hempty]
    rw [htext, qualifiedName, span_append place hchars hrest.namePart]
    have hfirst : (⟨"", String.ofList q.localPart.toList⟩ : QName) = q := by
      rw [String.ofList_toList, ← hempty]
    simp only [hbegins, if_true, hfirst]
    split
    · exact absurd rfl (hrest.ne_colon _)
    · rfl
  · -- The span up to the first colon is the prefix, and that up to the end the local part.
    obtain ⟨hbegins', hchars'⟩ := hqualifier.resolve_left hempty
    have hcolon : StopsAt isNamePartChar (':' :: (q.localPart.toList ++ rest)) :=
      stopsAt_cons (by decide) _
    have hnocolon : (⟨((place.afterAll q.qualifier.toList).after ':').afterAll
        q.localPart.toList, rest⟩ : Cursor).startsWith ":" = false := by
      rcases rest with _ | ⟨c, rest⟩
      · rfl
      · have hne : c ≠ ':' := fun h => hrest.ne_colon rest (h ▸ rfl)
        have hlist : ":".toList = [':'] := rfl
        simp [startsWith, hlist, List.isPrefixOf, hne.symm]
    rw [QName.text_of_qualifier hempty, List.append_assoc, List.cons_append, qualifiedName,
      span_append place hchars' hcolon]
    simp only [advance, span_append _ hchars hrest.namePart, hnocolon, hbegins, hbegins',
      String.ofList_toList]
    simp [Position.afterAll]

end Cursor
end Xml
end GraphFolding
