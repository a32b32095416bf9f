/-
What reading guarantees of what was read.

Nothing is known of the text here.  `Ensures` says that whatever a computation gives has a
property, and goes through it step by step:

* `Cursor.name_ensures`, `Cursor.qualifiedName_ensures` — what is read as a name is one;
* `Cursor.spanAllowed_ensures` — the characters up to a place are allowed ones, and the place
  is the first of its kind;
* `Cursor.reference?_spec` — a reference stands for an allowed character or an entity.
-/
import GraphFolding.Proofs.Reading
import GraphFolding.Xml.Reference
namespace GraphFolding.Xml

/-- Whatever a computation gives has a property. -/
def Ensures {ε α : Type} (P : α → Prop) (x : Except ε α) : Prop := ∀ a, x = .ok a → P a

namespace Ensures

variable {ε α β : Type} {P Q : α → Prop} {R : β → Prop} {x y : Except ε α}

theorem ok {a : α} (h : P a) : Ensures P (.ok a : Except ε α) :=
  fun _ hb => Except.ok.inj hb ▸ h

theorem error (e : ε) : Ensures P (.error e : Except ε α) := fun _ h => by simp at h

theorem mono (hx : Ensures P x) (h : ∀ a, P a → Q a) : Ensures Q x :=
  fun a ha => h a (hx a ha)

theorem bind {f : α → Except ε β} (hx : Ensures P x) (hf : ∀ a, P a → Ensures R (f a)) :
    Ensures R (x >>= f) := by
  cases x with
  | ok a => exact hf a (hx a rfl)
  | error e => exact error e

/-- A step of which nothing need be known. -/
theorem bind_any {f : α → Except ε β} (hf : ∀ a, Ensures R (f a)) : Ensures R (x >>= f) :=
  bind (P := fun _ => True) (fun _ _ => trivial) fun a _ => hf a

/-- Two ways to a step of which nothing need be known. -/
theorem ite_bind_any {p : Prop} [Decidable p] {f : α → Except ε β} (hf : ∀ a, Ensures R (f a)) :
    Ensures R (if p then x >>= f else y >>= f) := by
  split
  · exact bind_any hf
  · exact bind_any hf

theorem ite {p : Prop} [Decidable p] (hx : p → Ensures P x) (hy : ¬p → Ensures P y) :
    Ensures P (if p then x else y) := by
  by_cases h : p
  · rw [if_pos h]
    exact hx h
  · rw [if_neg h]
    exact hy h

end Ensures

namespace Cursor

/-! ### Spans -/

theorem mem_spanInto {p : Char → Bool} {c : Char} (rest : List Char) : ∀ {found : List Char}
    {place : Position}, c ∈ (spanInto p found place rest).1 → c ∈ found ∨ p c = true := by
  induction rest with
  | nil =>
    intro found place h
    exact .inl (List.mem_reverse.mp h)
  | cons x rest ih =>
    intro found place h
    rw [spanInto] at h
    by_cases hx : p x = true
    · rw [if_pos hx] at h
      rcases ih h with hfound | hp
      · rcases List.mem_cons.mp hfound with rfl | hfound
        · exact .inr hx
        · exact .inl hfound
      · exact .inr hp
    · rw [if_neg hx] at h
      exact .inl (List.mem_reverse.mp h)

theorem of_mem_span {p : Char → Bool} {k : Cursor} {c : Char} (h : c ∈ (k.span p).1) :
    p c = true :=
  (mem_spanInto k.rest h).resolve_left (by simp)

/-- What stands after a span does not go on as the span. -/
theorem stopsAt_spanInto {p : Char → Bool} (rest : List Char) : ∀ {found : List Char}
    {place : Position}, StopsAt p (spanInto p found place rest).2.rest := by
  induction rest with
  | nil =>
    intro found place c hc
    simp [spanInto] at hc
  | cons x rest ih =>
    intro found place
    rw [spanInto]
    by_cases hx : p x = true
    · rw [if_pos hx]
      exact ih
    · rw [if_neg hx]
      exact stopsAt_cons (by simpa using hx) rest

theorem spanInto_suffix {p : Char → Bool} (rest : List Char) : ∀ {found : List Char}
    {place : Position}, (spanInto p found place rest).2.rest <:+ rest := by
  induction rest with
  | nil => exact List.suffix_rfl
  | cons x rest ih =>
    intro found place
    rw [spanInto]
    split
    · exact ih.trans (List.suffix_cons x rest)
    · exact List.suffix_rfl

theorem span_suffix (k : Cursor) (p : Char → Bool) : (k.span p).2.rest <:+ k.rest :=
  spanInto_suffix k.rest

theorem advance_suffix (k : Cursor) : k.advance.rest <:+ k.rest := by
  obtain ⟨place, rest⟩ := k
  cases rest with
  | nil => exact List.suffix_rfl
  | cons c rest => exact List.suffix_cons c rest

theorem stopsAt_skipBlanks (k : Cursor) : StopsAt isBlank k.skipBlanks.rest :=
  stopsAt_spanInto k.rest

/-- What a span up to a place gives: allowed characters, before the first such place. -/
structure SpanAllowed (stop : List Char → Bool) (cs rest : List Char) : Prop where
  allowed : ∀ c ∈ cs, isAllowed c = true
  first : ∀ t, t <:+ cs → t ≠ [] → stop (t ++ rest) = false

theorem spanAllowedInto_ensures {stop : List Char → Bool} (rest : List Char) :
    ∀ (found : List Char) (place : Position),
    Ensures (fun r => ∃ cs, r.1 = found.reverse ++ cs ∧ rest = cs ++ r.2.rest ∧
      SpanAllowed stop cs r.2.rest) (spanAllowedInto stop found place rest) := by
  have hnil : ∀ rest : List Char, SpanAllowed stop [] rest := fun rest =>
    ⟨by simp, fun t ht hne => absurd (List.suffix_nil.mp ht) hne⟩
  induction rest with
  | nil => exact fun found place => .ok ⟨[], by simp, rfl, hnil _⟩
  | cons c rest ih =>
    intro found place
    rw [spanAllowedInto]
    refine .ite (fun _ => .error _) fun hc => .ite ?_ fun hs => ?_
    · exact fun _ => .ok ⟨[], by simp, rfl, hnil _⟩
    · refine (ih (c :: found) (place.after c)).mono ?_
      rintro r ⟨cs, hfound, hrest, hspan⟩
      refine ⟨c :: cs, by simp [hfound], by rw [hrest, List.cons_append], ?_, ?_⟩
      · intro x hx
        rcases List.mem_cons.mp hx with rfl | hx
        · simpa using hc
        · exact hspan.allowed x hx
      · intro t ht hne
        rcases List.suffix_cons_iff.mp ht with rfl | ht
        · rw [List.cons_append, ← hrest]
          simpa using hs
        · exact hspan.first t ht hne

theorem spanAllowed_ensures (k : Cursor) (stop : List Char → Bool) :
    Ensures (fun r => k.rest = r.1 ++ r.2.rest ∧ SpanAllowed stop r.1 r.2.rest)
      (k.spanAllowed stop) := by
  refine (spanAllowedInto_ensures k.rest [] k.position).mono ?_
  rintro r ⟨cs, hfound, hrest, hspan⟩
  obtain rfl : r.1 = cs := by simpa using hfound
  exact ⟨hrest, hspan⟩

/-- A text that is looked for does not occur before the place where it is found. -/
theorem SpanAllowed.not_infix {s : String} {cs rest : List Char} (hs : s.toList ≠ [])
    (h : SpanAllowed (s.toList.isPrefixOf ·) cs rest) : ¬s.toList <:+: cs := by
  rintro ⟨before, after, hcs⟩
  have hsuffix : s.toList ++ after <:+ cs := ⟨before, by rw [← hcs, List.append_assoc]⟩
  have hstop := h.first (s.toList ++ after) hsuffix (by simp [hs])
  rw [List.append_assoc] at hstop
  have hbegins := List.isPrefixOf_iff_prefix.mpr (List.prefix_append s.toList (after ++ rest))
  rw [hbegins] at hstop
  simp at hstop

/-! ### Names -/

theorem isNameChar_of_isNameStart {c : Char} (h : isNameStart c = true) :
    isNameChar c = true := by
  unfold isNameStart at h
  unfold isNameChar
  split at h
  · rename_i hlow
    rw [if_pos hlow]
    simp only [Bool.or_eq_true] at h
    rcases h with (h | h) | h
    · simp [Char.isAlphanum, h]
    · simp [h]
    · simp [h]
  · rename_i hhigh
    rw [if_neg hhigh, h]
    simp

theorem name_ensures (k : Cursor) : Ensures (fun r => IsName r.1) k.name := by
  unfold name
  split
  · exact .error _
  · rename_i c rest _
    refine .ite (fun hc => .ok ?_) fun _ => .error _
    rw [IsName, String.toList_ofList]
    refine ⟨hc, fun x hx => ?_⟩
    rcases List.mem_cons.mp hx with rfl | hx
    · exact isNameChar_of_isNameStart hc
    · exact of_mem_span hx

/-- What begins as a name and holds no colon is a name without a colon. -/
theorem isNamePart_ofList {cs : List Char} (h : beginsName cs = true)
    (hcs : ∀ c ∈ cs, isNamePartChar c = true) : IsNamePart (String.ofList cs) := by
  rw [IsNamePart, String.toList_ofList]
  exact ⟨h, hcs⟩

theorem qualifiedName_ensures (k : Cursor) : Ensures (fun r => r.1.IsValid) k.qualifiedName := by
  have hfirst : ∀ c ∈ (k.span isNamePartChar).1, isNamePartChar c = true := fun c => of_mem_span
  rw [qualifiedName]
  generalize k.span isNamePartChar = found at hfirst
  rcases found with ⟨first, k₁⟩
  simp only [] at hfirst ⊢
  split
  · have hsecond : ∀ c ∈ (k₁.advance.span isNamePartChar).1, isNamePartChar c = true :=
      fun c => of_mem_span
    generalize k₁.advance.span isNamePartChar = found at hsecond
    rcases found with ⟨second, k₂⟩
    refine .ite (fun _ => .error _) fun h => .ok ?_
    simp only [Bool.or_eq_true, Bool.not_eq_true', not_or, Bool.not_eq_false] at h
    obtain ⟨⟨-, hbegins⟩, hbegins'⟩ := h
    refine ⟨hbegins.imp (fun hempty => ?_) fun h => isNamePart_ofList h hfirst,
      isNamePart_ofList hbegins' hsecond⟩
    rw [List.isEmpty_iff.mp hempty]
  · refine .ite (fun h => .ok ?_) fun _ => .error _
    exact ⟨.inl rfl, isNamePart_ofList h hfirst⟩

/-! ### References -/

theorem isAllowed_of_referencedChar? {n : Nat} {c : Char} (h : referencedChar? n = some c) :
    isAllowed c = true := by
  unfold referencedChar? at h
  split at h
  · simp at h
  · obtain ⟨hallowed, heq⟩ := Option.ite_none_right_eq_some.mp h
    rwa [← Option.some_inj.mp heq]

theorem referenceNumeral?_spec {k k' : Cursor} {c : Char}
    (h : k.referenceNumeral? = some (c, k')) : isAllowed c = true ∧ k'.rest <:+ k.rest := by
  have hstart : (if k.startsWith "x" then (16, k.advance) else (10, k)).2.rest <:+ k.rest := by
    split
    · exact k.advance_suffix
    · exact List.suffix_rfl
  rw [referenceNumeral?] at h
  generalize (if k.startsWith "x" then (16, k.advance) else (10, k)) = start at h hstart
  obtain ⟨-, heq⟩ := Option.ite_none_left_eq_some.mp h
  obtain ⟨x, hx, heq⟩ := Option.map_eq_some_iff.mp heq
  obtain ⟨rfl, rfl⟩ := Prod.mk.inj heq
  exact ⟨isAllowed_of_referencedChar? hx, (span_suffix _ _).trans hstart⟩

theorem builtInNames_allowed {name : String} {c : Char} (h : builtInNames.lookup name = some c) :
    isAllowed c = true := by
  have hall : ∀ entry ∈ builtInNames, isAllowed entry.2 = true := by decide
  obtain ⟨before, after, hlist, -⟩ := List.lookup_eq_some_iff.mp h
  exact hall (name, c) (hlist ▸ by simp)

theorem name_suffix {k k' : Cursor} {name : String} (h : k.name = .ok (name, k')) :
    k'.rest <:+ k.rest := by
  have hensures : Ensures (fun r => r.2.rest <:+ k.rest) k.name := by
    unfold Cursor.name
    split
    · exact .error _
    · refine .ite (fun _ => .ok ?_) fun _ => .error _
      exact (span_suffix _ _).trans k.advance_suffix
  exact hensures _ h

theorem referenceBody?_spec {k k' : Cursor} {r : Reference} (h : k.referenceBody? = some (r, k')) :
    (∀ c, r = .char c → isAllowed c = true) ∧ k'.rest <:+ k.rest := by
  unfold referenceBody? at h
  split at h
  · obtain ⟨⟨x, k₁⟩, hx, heq⟩ := Option.map_eq_some_iff.mp h
    obtain ⟨rfl, rfl⟩ := Prod.mk.inj heq
    obtain ⟨hallowed, hsuffix⟩ := referenceNumeral?_spec hx
    refine ⟨fun c hc => ?_, hsuffix.trans k.advance_suffix⟩
    rwa [← Reference.char.inj hc]
  · split at h
    · simp at h
    · rename_i name next hname
      split at h
      · rename_i x hlookup
        obtain ⟨rfl, rfl⟩ := Prod.mk.inj (Option.some_inj.mp h)
        refine ⟨fun c hc => ?_, name_suffix hname⟩
        rw [← Reference.char.inj hc]
        exact builtInNames_allowed hlookup
      · obtain ⟨rfl, rfl⟩ := Prod.mk.inj (Option.some_inj.mp h)
        exact ⟨by simp, name_suffix hname⟩

/-- A reference stands for an allowed character, unless it stands for an entity. -/
theorem reference?_spec {k k' : Cursor} {r : Reference} (h : k.reference? = some (r, k')) :
    (∀ c, r = .char c → isAllowed c = true) ∧ k'.rest <:+ k.rest := by
  unfold reference? at h
  split at h
  · simp at h
  · rename_i reference next hbody
    obtain ⟨-, heq⟩ := Option.ite_none_right_eq_some.mp h
    obtain ⟨rfl, rfl⟩ := Prod.mk.inj (Option.some_inj.mp heq)
    obtain ⟨hallowed, hsuffix⟩ := referenceBody?_spec hbody
    exact ⟨hallowed, (next.advance_suffix.trans hsuffix).trans k.advance_suffix⟩

end Cursor
end GraphFolding.Xml
