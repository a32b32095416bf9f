/-
Reading the attributes that were written.

* `Builder.readAttribute_pair`, `Builder.tagRest_pair` — one attribute or declaration read;
* `Builder.tagRest_flatMap` — all of them read;
* `Builder.resolveAttributes_yields` — the attributes with their namespaces.

What is read never depends on where it stands; places are only kept for messages.
-/
import GraphFolding.Proofs.Legible
namespace GraphFolding

open Xml

/-- An attribute as it is written, with the space before it. -/
def Xml.pairChars (pair : QName × String) : List Char :=
  ' ' :: (pair.1.text.toList ++ '=' :: '\x22' :: ((escapeAttribute pair.2).toList ++ ['\x22']))

theorem Xml.QName.IsValid.text_eq_cons {q : QName} (hq : q.IsValid) :
    ∃ c more, q.text.toList = c :: more ∧ isNameStart c = true := by
  have hbegins : ∀ {s : String}, IsNamePart s → ∃ c more, s.toList = c :: more ∧
      isNameStart c = true := by
    intro s hs
    rcases hlist : s.toList with _ | ⟨c, more⟩
    · rw [IsNamePart, hlist] at hs
      exact absurd hs.1 (by decide)
    · rw [IsNamePart, hlist] at hs
      exact ⟨c, more, rfl, hs.1⟩
  by_cases hempty : q.qualifier = ""
  · obtain ⟨c, more, hlist, hc⟩ := hbegins hq.2
    exact ⟨c, more, by rw [QName.text, if_pos (by simp [hempty]), hlist], hc⟩
  · obtain ⟨c, more, hlist, hc⟩ := hbegins (hq.1.resolve_left hempty)
    refine ⟨c, more ++ ':' :: q.localPart.toList, ?_, hc⟩
    rw [QName.text_of_qualifier hempty, hlist]
    rfl

/-- What begins a name is no blank and no delimiter. -/
theorem Xml.ne_of_isNameStart {c : Char} (h : isNameStart c = true) :
    isBlank c = false ∧ c ≠ '/' ∧ c ≠ '>' ∧ c ≠ '!' ∧ c ≠ '?' ∧ c ≠ '<' := by
  have hne : ∀ x : Char, isNameStart x = false → c ≠ x := by
    rintro x hx rfl
    rw [h] at hx
    exact Bool.noConfusion hx
  have hspace : c ≠ ' ' := hne ' ' (by decide)
  have htab : c ≠ '\t' := hne '\t' (by decide)
  have hnewline : c ≠ '\n' := hne '\n' (by decide)
  have hreturn : c ≠ '\r' := hne '\r' (by decide)
  refine ⟨by simp [isBlank, hspace, htab, hnewline, hreturn], hne '/' (by decide),
    hne '>' (by decide), hne '!' (by decide), hne '?' (by decide), hne '<' (by decide)⟩

namespace Xml.Cursor

variable (rest : List Char) (place : Position)

theorem expectEquals_quote : (⟨place, '=' :: '\x22' :: rest⟩ : Cursor).expectEquals =
    .ok ⟨place.after '=', '\x22' :: rest⟩ := by
  rw [expectEquals, skipBlanks_of_stopsAt place (stopsAt_cons (by decide) _), expectChar_cons]
  simp only [bind, Except.bind, pure, Except.pure]
  rw [skipBlanks_of_stopsAt _ (stopsAt_cons (by decide) _)]

theorem expectQuote_quote : (⟨place, '\x22' :: rest⟩ : Cursor).expectQuote =
    .ok ('\x22', ⟨place.after '\x22', rest⟩) :=
  rfl

/-- A value is read up to its closing quote. -/
theorem spanAllowed_quote {value : List Char} (hvalue : ∀ c ∈ value, c ≠ '\x22' ∧ c ≠ '<') :
    Yields (∀ c ∈ value, isAllowed c = true)
      ((⟨place, value ++ '\x22' :: rest⟩ : Cursor).spanAllowed
        (fun rest => rest.head? = some '\x22' || rest.head? = some '<'))
      (.ok (value, ⟨place.afterAll value, '\x22' :: rest⟩)) := by
  refine spanAllowed_append place (fun t ht hne => ?_)
    (.inr ⟨'\x22', rest, rfl, by decide, by simp⟩)
  obtain ⟨c, t, rfl⟩ := List.exists_cons_of_ne_nil hne
  have hc := hvalue c (ht.subset List.mem_cons_self)
  simp [hc.1, hc.2]

end Xml.Cursor

namespace Xml.Builder

/-- One attribute read: what is left is its declaration. -/
theorem readAttribute_pair (b : Builder) {q : QName} (hq : q.IsValid) (value : String)
    (rest : List Char) (place : Position) : ∃ place', Yields (IsAllowedText value)
    (b.readAttribute Expansion.maxLevels ⟨place, q.text.toList ++
      '=' :: '\x22' :: ((escapeAttribute value).toList ++ '\x22' :: rest)⟩)
    (do return (← b.declareAttribute q value place, ⟨place', rest⟩)) := by
  have hstops : StopsAt isNameChar
      ('=' :: '\x22' :: ((escapeAttribute value).toList ++ '\x22' :: rest)) :=
    stopsAt_cons (by decide) _
  have hescaped : ∀ c ∈ (escapeAttribute value).toList, c ≠ '\x22' ∧ c ≠ '<' := by
    intro c hc
    exact ⟨(ne_of_mem_escapeAttribute hc).1, (ne_of_mem_escapeAttribute hc).2⟩
  have hspan := (Cursor.spanAllowed_quote rest
    (((place.afterAll q.text.toList).after '=').after '\x22') hescaped).congr
      (forall_mem_escapeAttribute value)
  refine ⟨((((place.afterAll q.text.toList).after '=').after '\x22').afterAll
    (escapeAttribute value).toList).after '\x22', ?_⟩
  rw [readAttribute, Cursor.qualifiedName_append hq hstops]
  simp only [bind, Except.bind, Cursor.expectEquals_quote, Cursor.expectQuote_quote]
  have hread := (hspan.bind fun found => do
    let after ← found.2.expectChar '\x22'
    let read ← attributeValue b.entities Expansion.maxLevels b.references
      ⟨((place.afterAll q.text.toList).after '=').after '\x22', found.1⟩
    let b ← { b with references := read.2 }.declareAttribute q read.1 place
    return (b, after))
  simp only [bind, Except.bind, Cursor.expectChar_cons, attributeValue_escapeAttribute] at hread
  exact hread

/-- A builder after one more attribute of its tag, which may be a declaration. -/
def declare (b : Builder) (q : QName) (value : String) (place : Position) : Builder :=
  { b with
    declared := b.declared ++ (binding? (q, value)).toList
    pending := b.pending ++ if q.declares then [] else [⟨q, value, place⟩] }

theorem declarePrefix_yields (b : Builder) {q : QName} (hq : q.qualifier = "xmlns")
    (value : String) (place : Position) : Yields (IsAcceptable b.declared (q, value))
      (b.declarePrefix q.localPart value place) (.ok (b.declare q value place)) := by
  have hdeclares : q.declares = true := by simp [QName.declares, hq]
  have hlast : (if value = Scope.xmlUri then (.ok b : Except Error Builder) else
      .ok { b with declared := b.declared ++ [⟨some q.localPart, value⟩] }) =
        .ok (b.declare q value place) := by
    by_cases huri : value = Scope.xmlUri
    · simp [declare, binding?, hq, hdeclares, huri]
    · simp [declare, binding?, hq, hdeclares, huri]
  refine (Yields.of_eq hlast).guard.guard.guard.guard.congr ?_
  have hreserved : Scope.xmlnsUri ≠ Scope.xmlUri := by decide
  rw [IsAcceptable, if_pos hq]
  simp only [Bool.and_eq_true, decide_eq_true_eq, and_true, Bool.not_eq_true]
  grind

theorem declareAttribute_yields (b : Builder) (q : QName) (value : String) (place : Position) :
    Yields (IsAcceptable b.declared (q, value)) (b.declareAttribute q value place)
      (.ok (b.declare q value place)) := by
  by_cases hq : q.qualifier = "xmlns"
  · rw [declareAttribute, if_pos hq]
    exact declarePrefix_yields b hq value place
  · rw [declareAttribute, if_neg hq]
    by_cases hlocal : q.localPart = "xmlns"
    · have hlast : (.ok { b with declared := b.declared ++ [⟨none, value⟩] } :
          Except Error Builder) = .ok (b.declare q value place) := by
        simp [declare, binding?, hq, hlocal, QName.declares]
      rw [if_pos hlocal, declareDefault]
      refine (Yields.of_eq hlast).guard.guard.congr ?_
      simp [IsAcceptable, hq, hlocal]
    · rw [if_neg hlocal]
      refine (Yields.of_eq ?_).congr (by simp [IsAcceptable, hq, hlocal])
      simp [declare, binding?, hq, hlocal, QName.declares]

section Pairs

variable (rest : List Char) (fuel : Nat) (b : Builder) (place : Position)

/-- One attribute read in the rest of a tag. -/
theorem tagRest_pair {q : QName} (hq : q.IsValid) (value : String) : ∃ start stop,
    Yields (IsAllowedText value ∧ IsAcceptable b.declared (q, value))
      (b.tagRest Expansion.maxLevels (fuel + 1) ⟨place, pairChars (q, value) ++ rest⟩)
      ((b.declare q value start).tagRest Expansion.maxLevels fuel ⟨stop, rest⟩) := by
  obtain ⟨c, more, hlist, hc⟩ := hq.text_eq_cons
  obtain ⟨hblank, hslash, hgreater, -⟩ := ne_of_isNameStart hc
  obtain ⟨stop, hread⟩ := readAttribute_pair b hq value rest (place.after ' ')
  have hdeclare := (declareAttribute_yields b q value (place.after ' ')).bind
    (fun b' => (pure (b', (⟨stop, rest⟩ : Cursor)) : Except Error (Builder × Cursor)))
  refine ⟨place.after ' ', stop, ?_⟩
  have hskip : (⟨place, pairChars (q, value) ++ rest⟩ : Cursor).skipBlanks =
      ⟨place.after ' ', q.text.toList ++
        '=' :: '\x22' :: ((escapeAttribute value).toList ++ '\x22' :: rest)⟩ := by
    have hspace : ∀ c ∈ [' '], isBlank c = true := List.all_eq_true.mp (by decide)
    have hstops : StopsAt isBlank (q.text.toList ++
        '=' :: '\x22' :: ((escapeAttribute value).toList ++ '\x22' :: rest)) := by
      rw [hlist]
      exact stopsAt_cons hblank _
    have hsplit : pairChars (q, value) ++ rest = [' '] ++ (q.text.toList ++
        '=' :: '\x22' :: ((escapeAttribute value).toList ++ '\x22' :: rest)) := by
      simp [pairChars]
    rw [hsplit, Cursor.skipBlanks_append place hspace hstops]
    rfl
  rw [tagRest]
  simp only [hskip]
  split
  · rename_i h
    simp [pairChars] at h
  · rename_i h _
    simp at h
  · rename_i h _
    rw [hlist, List.cons_append] at h
    exact absurd (List.cons.inj h).1 hslash
  · rename_i h _
    rw [hlist, List.cons_append] at h
    exact absurd (List.cons.inj h).1 hgreater
  · rename_i hfirst _
    obtain rfl : ' ' = _ := (List.cons.inj hfirst).1
    rw [if_neg (by decide)]
    exact (hread.trans hdeclare).bind _

/-- The attributes of a tag, declarations among them. -/
theorem tagRest_flatMap {pairs : List (QName × String)} : ∀ (b : Builder) (place : Position),
    (∀ pair ∈ pairs, pair.1.IsValid) → ∃ pending stop,
    pending.map (fun a => (a.written, a.value)) = pairs.filter (fun pair => !pair.1.declares) ∧
    Yields (AllAcceptable b.declared pairs)
      (b.tagRest Expansion.maxLevels (fuel + pairs.length)
        ⟨place, pairs.flatMap pairChars ++ rest⟩)
      ({ b with
          declared := b.declared ++ pairs.filterMap binding?
          pending := b.pending ++ pending }.tagRest Expansion.maxLevels fuel ⟨stop, rest⟩) := by
  induction pairs with
  | nil =>
    intro b place _
    exact ⟨[], place, rfl, (Yields.of_eq (by simp)).congr (by simp [AllAcceptable])⟩
  | cons pair pairs ih =>
    intro b place hvalid
    obtain ⟨q, value⟩ := pair
    obtain ⟨start, middle, hfirst⟩ := tagRest_pair (pairs.flatMap pairChars ++ rest)
      (fuel + pairs.length) b place (hvalid _ List.mem_cons_self) value
    obtain ⟨pending, stop, hpending, hmore⟩ := ih (b.declare q value start) middle
      fun x hx => hvalid x (List.mem_cons_of_mem _ hx)
    refine ⟨(if q.declares then [] else [⟨q, value, start⟩]) ++ pending, stop, ?_, ?_⟩
    · rw [List.map_append, hpending, List.filter_cons]
      cases q.declares <;> simp
    · have hbindings : b.declared ++ ((q, value) :: pairs).filterMap binding? =
          b.declared ++ (binding? (q, value)).toList ++ pairs.filterMap binding? := by
        rw [List.filterMap_cons]
        cases binding? (q, value) <;> simp
      rw [List.flatMap_cons, List.append_assoc, List.length_cons, ← Nat.add_assoc, hbindings,
        ← List.append_assoc b.pending, AllAcceptable]
      exact hfirst.trans hmore

end Pairs

/-! ### Resolved attributes -/

section Resolved

variable {scope : Scope}

theorem resolvePrefix_of_binds {p : String} (h : scope.binds (some p) = true)
    (place : Position) : ∃ uri, scope.uri? (some p) = some uri ∧
      resolvePrefix scope p place = .ok uri := by
  obtain ⟨uri, huri⟩ := Scope.exists_uri?_of_binds h
  exact ⟨uri, huri, by rw [resolvePrefix, huri]⟩

theorem resolvePrefix_of_not_binds {p : String} (h : scope.binds (some p) = false)
    (place : Position) : resolvePrefix scope p place = .error (.unknownPrefix p place) := by
  have hnone : scope.uri? (some p) = none := by
    rw [← Option.not_isSome_iff_eq_none, Scope.isSome_uri?, h]
    exact Bool.false_ne_true
  rw [resolvePrefix, hnone]

theorem resolveAttribute_yields (a : String × String) (place : Position) :
    Yields (Element.IsBound scope a.1)
      (resolveAttribute scope ⟨QName.ofText a.1, a.2, place⟩) (.ok (scope.attribute a)) := by
  rw [resolveAttribute, Scope.attribute, Scope.attributeUri]
  split
  · rename_i hq
    rw [hq]
    exact (Yields.of_eq rfl).congr (by simp [Element.IsBound, hq])
  · rename_i hq
    rw [hq]
    exact (Yields.of_eq rfl).congr (by simp [Element.IsBound, hq])
  · rename_i p hne hq
    rw [hq]
    by_cases hbinds : scope.binds (some p) = true
    · obtain ⟨uri, huri, hresolve⟩ := resolvePrefix_of_binds hbinds place
      rw [hresolve]
      simp only [if_neg hne, huri]
      exact (Yields.of_eq rfl).congr (by simp [Element.IsBound, hq, hbinds])
    · rw [resolvePrefix_of_not_binds (by simpa using hbinds)]
      have hxml : p ≠ "xml" := hne
      exact .of_not (by simp [Element.IsBound, hq, hxml, hbinds]) rfl

theorem sameName_comm (a b : Attribute) : sameName a b = sameName b a := by
  simp only [sameName, eq_comm]

/-- The attributes of a tag with their namespaces, which have to be different. -/
theorem resolveAttributes_yields {as : List (String × String)} :
    ∀ (found : List Attribute) (pending : List PendingAttribute),
    pending.map (fun a => (a.written, a.value)) = as.map (fun a => (QName.ofText a.1, a.2)) →
    Yields ((∀ a ∈ as, Element.IsBound scope a.1) ∧
        (∀ x ∈ found, ∀ y ∈ as.map scope.attribute, sameName x y = false) ∧
        (as.map scope.attribute).Pairwise fun x y => sameName x y = false)
      (resolveAttributes scope found pending) (.ok (found ++ as.map scope.attribute)) := by
  induction as with
  | nil =>
    intro found pending hpending
    obtain rfl : pending = [] := by simpa using hpending
    exact (Yields.of_eq (by simp [resolveAttributes])).congr (by simp)
  | cons a as ih =>
    intro found pending hpending
    rcases pending with _ | ⟨⟨written, value, place⟩, pending⟩
    · simp at hpending
    · simp only [List.map_cons, List.cons.injEq, Prod.mk.injEq] at hpending
      obtain ⟨⟨rfl, rfl⟩, hpending⟩ := hpending
      have hrest := ih (found ++ [scope.attribute a]) pending hpending
      have hguard := (hrest.guard (p := found.any (sameName (scope.attribute a)) = true)
        (e := .duplicateAttribute (QName.ofText a.1).localPart place))
      rw [List.append_assoc] at hguard
      rw [resolveAttributes]
      refine (((resolveAttribute_yields a place).bind _).trans hguard).congr ?_
      have hany : ¬found.any (sameName (scope.attribute a)) = true ↔
          ∀ x ∈ found, sameName x (scope.attribute a) = false := by
        simp only [Bool.not_eq_true, List.any_eq_false, sameName_comm (scope.attribute a)]
      simp only [hany, List.forall_mem_append, List.forall_mem_singleton, List.map_cons,
        List.pairwise_cons, List.forall_mem_cons, forall_and]
      tauto

end Resolved

end Xml.Builder
end GraphFolding
