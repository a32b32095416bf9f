/-
Reading the content that was written.

* `Builder.comment_written`, `Builder.instruction_written`, `Builder.plainText_written` — the
  pieces of content that are no tags;
* `Builder.contentWith_markup`, `Builder.contentWith_allMarkup` — markup, and a list of it, up
  to what stands after it.

The steps left to the reader are never fewer than the characters left to read.
-/
import GraphFolding.Proofs.ReadingTags
namespace GraphFolding

open Xml

namespace Xml

theorem occursIn_iff {s : List Char} : ∀ {t : List Char}, occursIn s t = true ↔ s <:+: t := by
  intro t
  induction t with
  | nil => simp [occursIn]
  | cons c t ih =>
    rw [occursIn, Bool.or_eq_true, ih, List.isPrefixOf_iff_prefix, List.infix_cons_iff]

namespace Builder

section Pieces

variable (b : Builder) (rest : List Char) (place : Position)

/-- A comment is read up to its end. -/
theorem comment_written {value : String} (hv : Markup.CommentWellFormed value) : ∃ stop,
    b.comment ⟨place, "<!--".toList ++ (value.toList ++ ("-->".toList ++ rest))⟩ =
      .ok (b.append (.comment value), ⟨stop, rest⟩) := by
  obtain ⟨hallowed, hhyphens, hlast⟩ := hv
  -- An end that begins too early would begin with two hyphens of the comment.
  have hgo : ∀ t, t <:+ value.toList → t ≠ [] →
      "-->".toList.isPrefixOf (t ++ ("-->".toList ++ rest)) = false := by
    intro t ht hne
    refine Bool.eq_false_iff.mpr fun h => ?_
    have hlist : "-->".toList = ['-', '-', '>'] := rfl
    rw [hlist] at h
    rcases t with _ | ⟨c, _ | ⟨d, t⟩⟩
    · exact hne rfl
    · simp [List.isPrefixOf] at h
    · have hcd : '-' = c ∧ '-' = d := by
        simp [List.isPrefixOf] at h
        exact ⟨h.1, h.2.1⟩
      obtain ⟨rfl, rfl⟩ := hcd
      exact hhyphens (List.IsInfix.trans ⟨[], t, rfl⟩ ht.isInfix)
  have hspan := (Cursor.spanAllowed_append (place.afterAll "<!--".toList) hgo
    (.inr ⟨'-', _, rfl, by decide, by rfl⟩)).eq hallowed
  have hoccurs : occursIn ['-', '-'] value.toList = false :=
    Bool.eq_false_iff.mpr fun h => hhyphens (occursIn_iff.mp h)
  refine ⟨((place.afterAll "<!--".toList).afterAll value.toList).afterAll "-->".toList, ?_⟩
  have hskip : Cursor.skip 4 ⟨place, "<!--".toList ++ (value.toList ++ ("-->".toList ++ rest))⟩ =
      ⟨place.afterAll "<!--".toList, value.toList ++ ("-->".toList ++ rest)⟩ :=
    Cursor.skip_append "<!--".toList _ place
  rw [comment, hskip, Cursor.spanAllowedTo, hspan]
  simp only [bind, Except.bind, Cursor.expectText_append, hoccurs, pure, Except.pure]
  rw [if_neg (by simp [hlast]), String.ofList_toList]

/-- What begins as a declaration does has the target `xml` and a space after it. -/
theorem eq_of_startsWith_declaration {target : String} (ht : IsName target) {c : Char}
    (hc : isNameChar c = false)
    (h : (⟨place, "<?".toList ++ (target.toList ++ c :: rest)⟩ : Cursor).startsWith "<?xml " =
      true) : target = "xml" ∧ c = ' ' := by
  have hlist : "<?xml ".toList = "<?".toList ++ ("xml".toList ++ [' ']) := rfl
  rw [Cursor.startsWith, List.isPrefixOf_iff_prefix, hlist, List.prefix_append_right_inj] at h
  obtain ⟨more, hmore⟩ := h
  rw [List.append_assoc] at hmore
  -- Both are the longest beginning of one text that could be a name.
  have htarget := Cursor.span_append place ht.2 (stopsAt_cons hc rest)
  have hxmlchars : ∀ c ∈ "xml".toList, isNameChar c = true :=
    List.all_eq_true.mp (by decide)
  have hspace : StopsAt isNameChar (' ' :: more) := stopsAt_cons (by decide) more
  have hdeclared := Cursor.span_append place hxmlchars hspace
  rw [← hmore] at htarget
  have heq := Prod.ext_iff.mp (hdeclared.symm.trans htarget)
  have hrest : ' ' :: more = c :: rest := congrArg Cursor.rest heq.2
  exact ⟨(String.toList_inj.mp heq.1).symm, (List.cons.inj hrest).1.symm⟩

/-- An instruction whose value, after a gap, may be empty. -/
theorem instruction_of_gap {target : String} (ht : IsName target) (gap v : List Char)
    (hgap : ∀ c ∈ gap, isBlank c = true) (hallowed : ∀ c ∈ v, isAllowed c = true)
    (hhead : ∀ c ∈ v.head?, isBlank c = false) (hend : ¬['?', '>'] <:+: v) {c : Char}
    {more : List Char} (hmore : gap ++ (v ++ ("?>".toList ++ rest)) = c :: more)
    (hc : isNameChar c = false) (hxml : target = "xml" → c ≠ ' ') : ∃ stop,
    b.instruction ⟨place, "<?".toList ++ (target.toList ++
        (gap ++ (v ++ ("?>".toList ++ rest))))⟩ =
      .ok (b.append (.instruction target (if v.isEmpty then none else some (String.ofList v))),
        ⟨stop, rest⟩) := by
  have hskip : Cursor.skip 2 ⟨place, "<?".toList ++ (target.toList ++ c :: more)⟩ =
      ⟨place.afterAll "<?".toList, target.toList ++ c :: more⟩ :=
    Cursor.skip_append "<?".toList _ place
  have hname := Cursor.name_append ht (stopsAt_cons hc more) (place.afterAll "<?".toList)
  have hstops : StopsAt isBlank (v ++ ("?>".toList ++ rest)) := by
    rcases v with _ | ⟨d, v⟩
    · exact stopsAt_cons (by decide) _
    · exact stopsAt_cons (hhead d rfl) _
  -- The value does not contain its own end, so no earlier one is found.
  have hgo : ∀ t, t <:+ v → t ≠ [] →
      "?>".toList.isPrefixOf (t ++ ("?>".toList ++ rest)) = false := by
    intro t ht hne
    refine Bool.eq_false_iff.mpr fun h => ?_
    have hlist : "?>".toList = ['?', '>'] := rfl
    rw [hlist] at h
    rcases t with _ | ⟨c, _ | ⟨d, t⟩⟩
    · exact hne rfl
    · simp [List.isPrefixOf] at h
    · have hcd : '?' = c ∧ '>' = d := by simpa [List.isPrefixOf] using h
      obtain ⟨rfl, rfl⟩ := hcd
      exact hend (List.IsInfix.trans ⟨[], t, rfl⟩ ht.isInfix)
  have hspan := (Cursor.spanAllowed_append
    (((place.afterAll "<?".toList).afterAll target.toList).afterAll gap) hgo
    (.inr ⟨'?', _, rfl, by decide, by rfl⟩)).eq hallowed
  refine ⟨((((place.afterAll "<?".toList).afterAll target.toList).afterAll gap).afterAll
    v).afterAll "?>".toList, ?_⟩
  have hnot : (⟨place, "<?".toList ++ (target.toList ++ c :: more)⟩ : Cursor).startsWith
      "<?xml " = false := by
    refine Bool.eq_false_iff.mpr fun h => ?_
    obtain ⟨htarget, hspace⟩ := eq_of_startsWith_declaration more place ht hc h
    exact hxml htarget hspace
  rw [hmore, instruction, hskip, hnot, hname, ← hmore]
  simp only [bind, Except.bind, Cursor.skipBlanks_append _ hgap hstops, Cursor.spanAllowedTo, hspan,
    Cursor.expectText_append, pure, Except.pure]
  rfl

/-- An instruction is read up to its end; one for `xml` is refused if it has a value. -/
theorem instruction_written {target : String} {value : Option String}
    (hv : Markup.InstructionLegible target value) : ∃ stop,
    Yields (target = "xml" → value = none)
      (b.instruction ⟨place, (Markup.instruction target value).chars ++ rest⟩)
      (.ok (b.append (.instruction target value), ⟨stop, rest⟩)) := by
  obtain ⟨htarget, hvalue⟩ := hv
  rcases value with _ | v
  · obtain ⟨stop, hread⟩ := instruction_of_gap b rest place htarget [] []
      (by simp) (by simp) (by simp) (by simp) (c := '?') rfl (by decide) (by simp)
    refine ⟨stop, (Yields.of_eq ?_).congr (by simp)⟩
    rw [Markup.chars, List.append_assoc, List.append_assoc]
    exact hread
  · obtain ⟨hallowed, hne, hall, hend⟩ := hvalue v rfl
    have hchars : (Markup.instruction target (some v)).chars ++ rest =
        "<?".toList ++ (target.toList ++ ([' '] ++ (v.toList ++ ("?>".toList ++ rest)))) := by
      simp [Markup.chars]
    rw [hchars]
    by_cases hxml : target = "xml"
    · have hstarts : (⟨place, "<?".toList ++ (target.toList ++
          ([' '] ++ (v.toList ++ ("?>".toList ++ rest))))⟩ : Cursor).startsWith "<?xml " = true := by
        rw [hxml]
        exact Cursor.startsWith_append place "<?xml " _
      refine ⟨place, .of_not (e := .misplacedDeclaration place) (by simp [hxml]) ?_⟩
      rw [instruction, if_pos hstarts]
      rfl
    · have hhead : ∀ c ∈ v.toList.head?, isBlank c = false := by
        intro c hc
        rw [Option.mem_def.mp hc] at hall
        simpa using hall
      obtain ⟨stop, hread⟩ := instruction_of_gap b rest place htarget [' '] v.toList
        (List.all_eq_true.mp (by decide)) hallowed hhead hend (c := ' ') rfl (by decide)
        fun h => absurd h hxml
      have hempty : v.toList.isEmpty = false := by simpa using hne
      rw [hempty, String.ofList_toList] at hread
      exact ⟨stop, (Yields.of_eq hread).congr (by simp [hxml])⟩

/-- Text is read up to the next markup. -/
theorem plainText_written {value : String} (hne : value ≠ "")
    (replace : Builder → Position → Cursor → Except Error Builder) : ∃ stop,
    Yields (IsAllowedText value)
      (b.plainText false replace ⟨place, (escapeText value).toList ++ '<' :: rest⟩)
      (.ok (b.appendText (readText value), ⟨stop, '<' :: rest⟩)) := by
  have hspan : Yields (IsAllowedText value)
      ((⟨place, (escapeText value).toList ++ '<' :: rest⟩ : Cursor).spanAllowed
        fun rest => rest.head? = some '<')
      (.ok ((escapeText value).toList,
        ⟨place.afterAll (escapeText value).toList, '<' :: rest⟩)) := by
    refine (Cursor.spanAllowed_append place (fun t ht hne => ?_)
      (.inr ⟨'<', rest, rfl, by decide, by simp⟩)).congr (forall_mem_escapeText value)
    obtain ⟨c, t, rfl⟩ := List.exists_cons_of_ne_nil hne
    simp [(ne_of_mem_escapeText (ht.subset List.mem_cons_self)).1]
  -- No closing bracket stands in escaped text, so no end of a section does.
  have hoccurs : occursIn "]]>".toList (escapeText value).toList = false := by
    refine Bool.eq_false_iff.mpr fun h => ?_
    have hmem : '>' ∈ (escapeText value).toList := (occursIn_iff.mp h).subset (by simp)
    exact (ne_of_mem_escapeText hmem).2 rfl
  have hdata := characterData_escapeText replace b hne place
  have hread := hspan.bind fun found => do
    if occursIn "]]>".toList found.1 then throw (.sectionEndInText found.2.position)
    let b ← b.characterData false replace ⟨place, found.1⟩
    return (b, found.2)
  refine ⟨place.afterAll (escapeText value).toList, ?_⟩
  simp only [hoccurs, hdata] at hread
  exact hread

end Pieces

theorem Idle.changed_appendText {b : Builder} (hb : b.Idle) (hjoins : b.joins = false)
    (value : String) : Changed b (.text value :: ·) true (b.appendText value) := by
  have hjoin : joinText b.joins value = (.text value :: ·) := by
    funext nodes
    unfold joinText
    split
    · simp [hjoins]
    · rfl
  have happend := hb.changed_append (.text value)
  rw [appendText, hjoin]
  exact ⟨⟨happend.idle.declared, happend.idle.pending, happend.idle.latestTag⟩, rfl, rfl, rfl⟩

theorem Idle.changed_id {b : Builder} (hb : b.Idle) : Changed b (fun nodes => nodes) b.joins b := by
  refine ⟨hb, ?_, ?_, rfl⟩
  · unfold modifyNodes
    split
    · rfl
    · assumption
  · unfold modifyNodes
    split
    · rfl
    · rfl

/-! ### Steps of the reader -/

section Steps

variable (replace : Builder → Position → Cursor → Except Error Builder)

/-- The reader gets from one place to another if a condition holds, and fails if it does not; it
has enough steps left there if it had enough before. -/
def Steps (C : Prop) (depth : Nat) (b : Builder) (k : Cursor) (depth' : Nat) (b' : Builder)
    (k' : Cursor) : Prop :=
  ∀ fuel, k.rest.length ≤ fuel → ∃ fuel', k'.rest.length ≤ fuel' ∧
    Yields C (contentWith Expansion.maxLevels replace fuel depth b k)
      (contentWith Expansion.maxLevels replace fuel' depth' b' k')

variable {replace} {C C' : Prop} {depth depth' depth'' : Nat} {b b' b'' : Builder}
  {k k' k'' : Cursor}

theorem Steps.refl : Steps replace True depth b k depth b k :=
  fun fuel hfuel => ⟨fuel, hfuel, .of_eq rfl⟩

theorem Steps.congr (h : Steps replace C depth b k depth' b' k') (hC : C ↔ C') :
    Steps replace C' depth b k depth' b' k' := by
  intro fuel hfuel
  obtain ⟨fuel', hfuel', hyields⟩ := h fuel hfuel
  exact ⟨fuel', hfuel', hyields.congr hC⟩

theorem Steps.trans (h : Steps replace C depth b k depth' b' k')
    (h' : Steps replace C' depth' b' k' depth'' b'' k'') :
    Steps replace (C ∧ C') depth b k depth'' b'' k'' := by
  intro fuel hfuel
  obtain ⟨fuel', hfuel', hyields⟩ := h fuel hfuel
  obtain ⟨fuel'', hfuel'', hyields'⟩ := h' fuel' hfuel'
  exact ⟨fuel'', hfuel'', hyields.trans hyields'⟩

theorem steps_of_step (hlt : k'.rest.length < k.rest.length)
    (h : ∀ fuel, Yields C (contentWith Expansion.maxLevels replace (fuel + 1) depth b k)
      (contentWith Expansion.maxLevels replace fuel depth' b' k')) :
    Steps replace C depth b k depth' b' k' := by
  intro fuel hfuel
  obtain ⟨n, rfl⟩ : ∃ n, fuel = n + 1 := ⟨fuel - 1, by omega⟩
  exact ⟨n, by omega, h n⟩

theorem steps_comment {more : List Char} (hk : k.rest = "<!--".toList ++ more)
    (h : b.comment k = .ok (b', k')) (hlt : k'.rest.length < k.rest.length) :
    Steps replace True depth b k depth b' k' := by
  refine steps_of_step hlt fun fuel => .of_eq ?_
  have hstarts : k.startsWith "<!--" = true := by
    rw [Cursor.startsWith, hk]
    exact List.isPrefixOf_iff_prefix.mpr (List.prefix_append ..)
  have hlist : k.rest = '<' :: '!' :: '-' :: '-' :: more := hk
  rw [contentWith, hlist]
  simp only [hstarts, if_true, h]
  rfl

theorem steps_instruction {more : List Char} (hk : k.rest = '<' :: '?' :: more)
    (h : Yields C (b.instruction k) (.ok (b', k'))) (hlt : k'.rest.length < k.rest.length) :
    Steps replace C depth b k depth b' k' := by
  refine steps_of_step hlt fun fuel => ?_
  rw [contentWith, hk]
  exact h.bind _

theorem steps_plainText {c : Char} {more : List Char} (hk : k.rest = c :: more) (hc : c ≠ '<')
    (h : Yields C (b.plainText false replace k) (.ok (b', k')))
    (hlt : k'.rest.length < k.rest.length) : Steps replace C depth b k depth b' k' := by
  refine steps_of_step hlt fun fuel => ?_
  have hinside : Expansion.isInside Expansion.maxLevels = false := by decide
  have hne : ∀ {tail tail' : List Char}, c :: tail = '<' :: tail' → False :=
    fun heq => hc (List.cons.inj heq).1
  rw [contentWith, hk]
  split
  · rename_i heq
    simp at heq
  · rename_i heq
    exact (hne heq).elim
  · rename_i heq
    exact (hne heq).elim
  · rename_i heq
    exact (hne heq).elim
  · rename_i heq
    exact (hne heq).elim
  · rename_i heq
    exact (hne heq).elim
  · rw [hinside]
    exact h.bind _

variable (replace) (depth) in
theorem steps_startTag {c : Char} {more : List Char} (hk : k.rest = '<' :: c :: more)
    (hc : isNameStart c = true) {tagEnd : TagEnd}
    (h : Yields C (b.startTag Expansion.maxLevels k) (.ok (tagEnd, b', k')))
    (hlt : k'.rest.length < k.rest.length) :
    Steps replace C depth b k (if tagEnd = .opened then depth + 1 else depth) b' k' := by
  refine steps_of_step hlt fun fuel => ?_
  obtain ⟨-, hslash, -, hexclamation, hquestion, -⟩ := ne_of_isNameStart hc
  rw [contentWith, hk]
  split
  · rename_i heq
    simp at heq
  · rename_i heq
    exact absurd (List.cons.inj (List.cons.inj heq).2).1 hexclamation
  · rename_i heq
    exact absurd (List.cons.inj (List.cons.inj heq).2).1 hquestion
  · rename_i heq
    exact absurd (List.cons.inj (List.cons.inj heq).2).1 hslash
  · exact h.bind _
  · rename_i heq
    simp at heq
  · rename_i heq _
    exact (heq _ _ rfl).elim

theorem steps_endTag {more : List Char} (hk : k.rest = '<' :: '/' :: more)
    (h : b.endTag k = .ok (b', k')) (hlt : k'.rest.length < k.rest.length) :
    Steps replace True (depth + 1) b k depth b' k' := by
  refine steps_of_step hlt fun fuel => .of_eq ?_
  rw [contentWith, hk]
  simp only [h]
  rfl

end Steps

end Builder
end Xml

/-! ### Markup -/

open Xml.Builder

theorem Element.Legible.startText_eq_cons {e : Element} (he : e.Legible) :
    ∃ c more, e.startText.toList = '<' :: c :: more ∧ isNameStart c = true := by
  obtain ⟨c, more, hlist, hc⟩ := he.name.1.text_eq_cons
  refine ⟨c, more ++ e.pairs.flatMap pairChars, ?_, hc⟩
  rw [he.toList_startText, hlist]
  rfl

/-- Markup that is not text begins with an opening bracket. -/
theorem Markup.chars_eq_cons {m : Markup} (h : m.isText = false) :
    ∃ more, m.chars = '<' :: more := by
  cases m with
  | element e children =>
    have hstart : ∃ more, e.startText.toList = '<' :: more := by
      simp [Element.startText]
    obtain ⟨more, hmore⟩ := hstart
    rw [chars, hmore]
    split
    · exact ⟨_, rfl⟩
    · exact ⟨_, rfl⟩
  | text value => simp [isText] at h
  | comment value => exact ⟨_, rfl⟩
  | instruction target value =>
    cases value with
    | none => exact ⟨_, rfl⟩
    | some v => exact ⟨_, rfl⟩

/-- An element with children, and what stands after it. -/
theorem Markup.chars_append (e : Element) (m : Markup) (ms : List Markup) (rest : List Char) :
    (element e (m :: ms)).chars ++ rest =
      e.startText.toList ++ '>' :: (allChars (m :: ms) ++ e.endChars rest) := by
  simp [chars, Element.endChars]

theorem escapeText_append (s t : String) :
    (escapeText (s ++ t)).toList = (escapeText s).toList ++ (escapeText t).toList := by
  simp [escapeText]

theorem escapeText_eq_cons {value : String} (h : value ≠ "") :
    ∃ c more, (escapeText value).toList = c :: more ∧ c ≠ '<' := by
  have hne : (escapeText value).toList ≠ [] := by
    intro hnil
    have hempty := isEmpty_flatMap_escapeTextChar value.toList
    rw [escapeText, String.toList_ofList] at hnil
    rw [hnil] at hempty
    exact h (String.toList_eq_nil_iff.mp (List.isEmpty_iff.mp hempty.symm))
  obtain ⟨c, more, hlist⟩ := List.exists_cons_of_ne_nil hne
  have hmem : c ∈ (escapeText value).toList := by
    rw [hlist]
    exact List.mem_cons_self
  exact ⟨c, more, hlist, (ne_of_mem_escapeText hmem).1⟩

theorem isAllowedText_append {s t : String} :
    IsAllowedText (s ++ t) ↔ IsAllowedText s ∧ IsAllowedText t := by
  simp only [IsAllowedText, String.toList_append, List.forall_mem_append]

theorem isAllowedText_empty : IsAllowedText "" := by
  intro c hc
  simp at hc

section Content

variable (replace : Builder → Position → Cursor → Except Error Builder) (rest : List Char)
  {e : Element} (he : e.Legible) {b : Builder} (hb : b.Idle) (depth : Nat) (place : Position)

include he hb in
/-- An element without children. -/
theorem steps_closed : ∃ b' stop,
    Changed b (.element (e.readTag b.outerScope) [] :: ·) false b' ∧
    Steps replace (e.Readable b.outerScope) depth b
      ⟨place, e.startText.toList ++ '/' :: '>' :: rest⟩ depth b' ⟨stop, rest⟩ := by
  obtain ⟨c, more, hlist, hc⟩ := he.startText_eq_cons
  obtain ⟨b', stop, hchanged, hread⟩ := startTag_closed he hb rest place
  have hk : e.startText.toList ++ '/' :: '>' :: rest =
      '<' :: c :: (more ++ '/' :: '>' :: rest) := by
    rw [hlist]
    rfl
  refine ⟨b', stop, hchanged, steps_startTag replace depth hk hc hread ?_⟩
  simp only [List.length_append, List.length_cons]
  omega

include he hb in
/-- An element around its children: its start tag, the children, and its end tag. -/
theorem exists_reads_of_inner {C : Prop} (children : List Xml.Node) (inner : List Char)
    (hinner : ∀ {b₁ : Builder} place₁, b₁.Idle → b₁.outerScope = e.readScope b.outerScope →
      b₁.joins = false → ∃ b₂ joins stop, Changed b₁ (children.reverse ++ ·) joins b₂ ∧
        Steps replace C depth b₁ ⟨place₁, inner ++ e.endChars rest⟩ depth b₂
          ⟨stop, e.endChars rest⟩) : ∃ b₁ b₂ b₃ start stop place₃,
    Yields (e.Readable b.outerScope) (b.startTag Expansion.maxLevels
      ⟨place, e.startText.toList ++ '>' :: (inner ++ e.endChars rest)⟩)
        (.ok (.opened, b₁, ⟨start, inner ++ e.endChars rest⟩)) ∧
    Steps replace C depth b₁ ⟨start, inner ++ e.endChars rest⟩ depth b₂
      ⟨stop, e.endChars rest⟩ ∧
    b₂.endTag ⟨stop, e.endChars rest⟩ = .ok (b₃, ⟨place₃, rest⟩) ∧
    Changed b (.element (e.readTag b.outerScope) children :: ·) false b₃ := by
  obtain ⟨b₁, start, hopened, hstart⟩ := startTag_opened he hb (inner ++ e.endChars rest) place
  have hscope : b₁.outerScope = e.readScope b.outerScope := by
    rw [outerScope, hopened.path]
    rfl
  obtain ⟨b₂, joins, stop, hchanged, hsteps⟩ := hinner start hopened.idle hscope hopened.joins
  have hpath : b₂.path = ⟨e.readTag b.outerScope, children.reverse⟩ :: b.path := by
    rw [hchanged.path, modifyNodes, hopened.path]
    simp
  have houter : b₂.outer = b.outer := by
    rw [hchanged.outer, modifyNodes, hopened.path]
    exact hopened.outer
  obtain ⟨b₃, place₃, hended, hend⟩ := endTag_written he hchanged.idle rfl hpath rest stop
  exact ⟨b₁, b₂, b₃, start, stop, place₃, hstart, hsteps, hend, hended.of_eq rfl houter⟩

include he hb in
/-- An element around its children. -/
theorem steps_opened {C : Prop} (children : List Xml.Node) (inner : List Char)
    (hinner : ∀ {b₁ : Builder} place₁, b₁.Idle → b₁.outerScope = e.readScope b.outerScope →
      b₁.joins = false → ∃ b₂ joins stop, Changed b₁ (children.reverse ++ ·) joins b₂ ∧
        Steps replace C (depth + 1) b₁ ⟨place₁, inner ++ e.endChars rest⟩ (depth + 1) b₂
          ⟨stop, e.endChars rest⟩) : ∃ b' stop,
    Changed b (.element (e.readTag b.outerScope) children :: ·) false b' ∧
      Steps replace (e.Readable b.outerScope ∧ C) depth b ⟨place, e.startText.toList ++ '>' ::
        (inner ++ e.endChars rest)⟩ depth b' ⟨stop, rest⟩ := by
  obtain ⟨c, more, hlist, hc⟩ := he.startText_eq_cons
  obtain ⟨b₁, b₂, b₃, start, stop, place₃, hstart, hsteps, hend, hchanged⟩ :=
    exists_reads_of_inner replace rest he hb (depth + 1) place children inner hinner
  refine ⟨b₃, place₃, hchanged, ?_⟩
  have hk : e.startText.toList ++ '>' :: (inner ++ e.endChars rest) =
      '<' :: c :: (more ++ '>' :: (inner ++ e.endChars rest)) := by
    rw [hlist]
    rfl
  have hfirst := steps_startTag replace depth hk hc hstart (by
    simp only [List.length_append, List.length_cons]
    omega)
  rw [if_pos rfl] at hfirst
  have hlast : Steps replace True (depth + 1) b₂ _ depth b₃ _ :=
    steps_endTag rfl hend (e.length_lt_endChars rest)
  exact ((hfirst.trans hsteps).trans hlast).congr (and_iff_left trivial)

include hb in
/-- Text, unless nothing is written of it. -/
theorem steps_text (value : String) (hjoins : b.joins = false) {rest : List Char}
    (hrest : rest.head? = some '<') : ∃ b' joins stop,
    Changed b ((Markup.textNodes value).reverse ++ ·) joins b' ∧
      Steps replace (IsAllowedText value) depth b ⟨place, (escapeText value).toList ++ rest⟩ depth
        b' ⟨stop, rest⟩ := by
  by_cases hne : value = ""
  · refine ⟨b, b.joins, place, ?_, ?_⟩
    · simpa [Markup.textNodes, hne] using hb.changed_id
    · subst hne
      exact Steps.refl.congr (iff_of_true trivial isAllowedText_empty)
  · obtain ⟨tail, rfl⟩ : ∃ tail, rest = '<' :: tail := List.head?_eq_some_iff.mp hrest
    obtain ⟨stop, hread⟩ := plainText_written b tail place hne replace
    obtain ⟨c, more, hlist, hc⟩ := escapeText_eq_cons hne
    refine ⟨b.appendText (readText value), true, stop, ?_, ?_⟩
    · simpa [Markup.textNodes, hne] using hb.changed_appendText hjoins (readText value)
    · have hk : (escapeText value).toList ++ '<' :: tail = c :: (more ++ '<' :: tail) := by
        rw [hlist]
        rfl
      refine steps_plainText hk hc hread ?_
      rw [hk]
      simp only [List.length_append, List.length_cons]
      omega

/-- Markup that stands after a start tag is read with no text before it. -/
theorem steps_children {scope : Scope} {ms : List Markup} {b₁ : Builder} {start : Position}
    (hscope : b₁.outerScope = scope)
    (h : ∃ b₂ joins stop, Changed b₁ ((Markup.readAll b₁.outerScope "" ms).reverse ++ ·) joins b₂ ∧
      Steps replace (IsAllowedText "" ∧ Markup.AllReadable b₁.outerScope ms) depth b₁
        ⟨start, (escapeText "").toList ++ (Markup.allChars ms ++ rest)⟩ depth b₂ ⟨stop, rest⟩) :
    ∃ b₂ joins stop, Changed b₁ ((Markup.readAll scope "" ms).reverse ++ ·) joins b₂ ∧
      Steps replace (Markup.AllReadable scope ms) depth b₁
        ⟨start, Markup.allChars ms ++ rest⟩ depth b₂ ⟨stop, rest⟩ := by
  obtain ⟨b₂, joins, stop, hchanged, hsteps⟩ := h
  subst hscope
  exact ⟨b₂, joins, stop, hchanged, hsteps.congr (and_iff_right isAllowedText_empty)⟩

end Content

mutual

/-- Markup that is not text is read up to its end. -/
theorem steps_markup (replace : Builder → Position → Cursor → Except Error Builder)
    (rest : List Char) : ∀ (m : Markup) {b : Builder} (depth : Nat) (place : Position),
    m.isText = false → m.Legible → b.Idle → ∃ b' stop,
    Changed b (m.read b.outerScope :: ·) false b' ∧
      Steps replace (m.Readable b.outerScope) depth b ⟨place, m.chars ++ rest⟩ depth b'
        ⟨stop, rest⟩
  | .element e [], b, depth, place, _, hlegible, hb => by
    obtain ⟨b', stop, hchanged, hsteps⟩ := steps_closed replace rest hlegible.1 hb depth place
    refine ⟨b', stop, hchanged, ?_⟩
    have hchars : (Markup.element e []).chars ++ rest =
        e.startText.toList ++ '/' :: '>' :: rest := by
      simp [Markup.chars]
    rw [hchars]
    exact hsteps.congr (and_iff_left trivial).symm
  | .element e (m :: ms), b, depth, place, _, hlegible, hb => by
    obtain ⟨b', stop, hchanged, hsteps⟩ := steps_opened replace rest hlegible.1 hb depth place
      (Markup.readAll (e.readScope b.outerScope) "" (m :: ms)) (Markup.allChars (m :: ms))
      fun place₁ hb₁ hscope hjoins => steps_children replace _ _ hscope
        (steps_allMarkup replace (e.head?_endChars rest) (m :: ms) "" (depth + 1) place₁ hlegible.2
          hb₁ hjoins)
    refine ⟨b', stop, hchanged, ?_⟩
    rw [Markup.chars_append]
    exact hsteps
  | .text _, _, _, _, htext, _, _ => by simp [Markup.isText] at htext
  | .comment value, b, depth, place, _, hlegible, hb => by
    obtain ⟨stop, hread⟩ := comment_written b rest place hlegible
    have hchars : (Markup.comment value).chars ++ rest =
        "<!--".toList ++ (value.toList ++ ("-->".toList ++ rest)) := by
      simp [Markup.chars]
    refine ⟨_, stop, hb.changed_append _, ?_⟩
    rw [hchars]
    refine steps_comment rfl hread ?_
    have hlength : 0 < "<!--".toList.length := by decide
    simp only [List.length_append]
    omega
  | .instruction target value, b, depth, place, _, hlegible, hb => by
    obtain ⟨stop, hread⟩ := instruction_written b rest place hlegible
    refine ⟨_, stop, hb.changed_append _, ?_⟩
    obtain ⟨more, hmore⟩ : ∃ more,
        (Markup.instruction target value).chars = '<' :: '?' :: more := by
      cases value with
      | none => exact ⟨_, rfl⟩
      | some v => exact ⟨_, rfl⟩
    rw [hmore] at hread ⊢
    refine steps_instruction rfl hread ?_
    simp only [List.length_append, List.length_cons]
    omega

/-- Several pieces of markup after text are read up to what stands after them. -/
theorem steps_allMarkup (replace : Builder → Position → Cursor → Except Error Builder)
    {rest : List Char} (hrest : rest.head? = some '<') :
    ∀ (ms : List Markup) (pending : String) {b : Builder} (depth : Nat) (place : Position),
    Markup.AllLegible ms → b.Idle → b.joins = false → ∃ b' joins stop,
    Changed b ((Markup.readAll b.outerScope pending ms).reverse ++ ·) joins b' ∧
      Steps replace (IsAllowedText pending ∧ Markup.AllReadable b.outerScope ms) depth b
        ⟨place, (escapeText pending).toList ++ (Markup.allChars ms ++ rest)⟩ depth b' ⟨stop, rest⟩
  | [], pending, b, depth, place, _, hb, hjoins => by
    obtain ⟨b', joins, stop, hchanged, hsteps⟩ := steps_text replace hb depth place pending hjoins
      hrest
    exact ⟨b', joins, stop, hchanged, hsteps.congr (and_iff_left trivial).symm⟩
  | m :: ms, pending, b, depth, place, hlegible, hb, hjoins => by
    cases htext : m.isText with
    | true =>
      -- Text joins the text before it.
      obtain ⟨b', joins, stop, hchanged, hsteps⟩ := steps_allMarkup replace hrest ms
        (pending ++ m.ownText) depth place hlegible.2 hb hjoins
      have hchars : m.chars = (escapeText m.ownText).toList := by
        cases m <;> simp_all [Markup.isText, Markup.chars, Markup.ownText]
      have hreadable : m.Readable b.outerScope ↔ IsAllowedText m.ownText := by
        cases m <;> simp_all [Markup.isText, Markup.Readable, Markup.ownText]
      refine ⟨b', joins, stop, ?_, ?_⟩
      · rwa [Markup.readAll, if_pos htext]
      · rw [Markup.allChars, hchars, List.append_assoc, ← List.append_assoc, ← escapeText_append]
        refine hsteps.congr ?_
        rw [isAllowedText_append, Markup.AllReadable, hreadable, and_assoc]
    | false =>
      obtain ⟨more, hmore⟩ := Markup.chars_eq_cons htext
      have hhead : (m.chars ++ (Markup.allChars ms ++ rest)).head? = some '<' := by
        rw [hmore]
        rfl
      obtain ⟨b₁, joins₁, place₁, hfirst, hsteps₁⟩ := steps_text replace hb depth place pending
        hjoins hhead
      obtain ⟨b₂, place₂, hsecond, hsteps₂⟩ := steps_markup replace (Markup.allChars ms ++ rest) m
        depth place₁ htext hlegible.1 hfirst.idle
      obtain ⟨b₃, joins₃, place₃, hthird, hsteps₃⟩ := steps_allMarkup replace hrest ms "" depth
        place₂ hlegible.2 hsecond.idle hsecond.joins
      rw [hsecond.outerScope, hfirst.outerScope] at hthird hsteps₃
      rw [hfirst.outerScope] at hsecond hsteps₂
      refine ⟨b₃, joins₃, place₃, ?_, ?_⟩
      · have hall := (hfirst.trans hsecond).trans hthird
        rw [Markup.readAll, if_neg (by simp [htext])]
        simpa using hall
      · rw [Markup.allChars, List.append_assoc]
        refine (hsteps₁.trans (hsteps₂.trans hsteps₃)).congr ?_
        rw [Markup.AllReadable, and_iff_right isAllowedText_empty]

end

end GraphFolding
