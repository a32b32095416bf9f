/-
Reading the documents that were written.

* `Cursor.skipXmlDeclaration_written` — the declaration at the head;
* `Builder.miscellany_written` — comments and instructions, each on a line of its own;
* `readDocument_yields` — a whole document: the comments and instructions around an element,
  and that element.
-/
import GraphFolding.Proofs.ReadingContent
namespace GraphFolding

open Xml

namespace Xml.Cursor

/-- A part of the declaration: a name with a quoted value. -/
def partChars (name value : String) (rest : List Char) : List Char :=
  name.toList ++ '=' :: '\x22' :: (value.toList ++ '\x22' :: rest)

section Part

variable {name : String} (hname : IsNamePart name) (value : String) (rest : List Char)
  (place : Position)

theorem startsWith_part (name value : String) (rest : List Char) (place : Position) :
    (⟨place, partChars name value rest⟩ : Cursor).startsWith name = true :=
  startsWith_append place name _

include hname in
theorem skipAttribute_part
    (hvalue : value.toList.all (fun c => isAllowed c && c ≠ '\x22' && c ≠ '<') = true) : ∃ stop,
    (⟨place, partChars name value rest⟩ : Cursor).skipAttribute = .ok ⟨stop, rest⟩ := by
  simp only [List.all_eq_true, Bool.and_eq_true, decide_eq_true_eq] at hvalue
  have hspan := (spanAllowed_quote rest
    (((place.afterAll name.toList).after '=').after '\x22')
    fun c hc => ⟨(hvalue c hc).1.2, (hvalue c hc).2⟩).eq fun c hc => (hvalue c hc).1.1
  have hvalid : (⟨"", name⟩ : QName).IsValid := ⟨.inl rfl, hname⟩
  have hstops : StopsAt isNameChar ('=' :: '\x22' :: (value.toList ++ '\x22' :: rest)) :=
    stopsAt_cons (by decide) _
  have hread := qualifiedName_append hvalid hstops place
  have htext : (⟨"", name⟩ : QName).text = name := rfl
  rw [htext] at hread
  refine ⟨((((place.afterAll name.toList).after '=').after '\x22').afterAll value.toList).after
    '\x22', ?_⟩
  rw [skipAttribute, partChars, hread]
  simp only [bind, Except.bind, expectEquals_quote, expectQuote_quote, hspan, expectChar_cons]

include hname in
/-- The blank before a part of the declaration. -/
theorem skipSeparator_part : (⟨place, ' ' :: partChars name value rest⟩ : Cursor).skipSeparator =
    .ok ⟨place.after ' ', partChars name value rest⟩ := by
  have hvalid : (⟨"", name⟩ : QName).IsValid := ⟨.inl rfl, hname⟩
  obtain ⟨c, more, hlist, hc⟩ := hvalid.text_eq_cons
  have hstops : StopsAt isBlank (partChars name value rest) := by
    have htext : name.toList = c :: more := hlist
    rw [partChars, htext]
    exact stopsAt_cons (ne_of_isNameStart hc).1 _
  have hspace : ∀ c ∈ [' '], isBlank c = true := List.all_eq_true.mp (by decide)
  have hskip := skipBlanks_append place hspace hstops
  rw [skipSeparator]
  simp only []
  rw [if_pos (by decide)]
  exact congrArg Except.ok hskip

end Part

/-- The declaration at the head of a written drawing, without its line feed. -/
def declaration : List Char :=
  "<?xml version=\"1.0\" encoding=\"UTF-8\" standalone=\"no\"?>".toList

theorem toList_header : Drawing.header.toList = declaration ++ ['\n'] := by
  decide

theorem skipXmlDeclaration_written (rest : List Char) (place : Position) : ∃ stop,
    (⟨place, declaration ++ rest⟩ : Cursor).skipXmlDeclaration = .ok ⟨stop, rest⟩ := by
  have hversion : IsNamePart "version" := by decide
  have hencoding : IsNamePart "encoding" := by decide
  have hstandalone : IsNamePart "standalone" := by decide
  have hstops : StopsAt isBlank ("?>".toList ++ rest) := stopsAt_cons (by decide) _
  have hsplit : declaration ++ rest = "<?xml".toList ++ (' ' :: partChars "version" "1.0"
      (' ' :: partChars "encoding" "UTF-8"
        (' ' :: partChars "standalone" "no" ("?>".toList ++ rest)))) := rfl
  obtain ⟨stop₁, hread₁⟩ := skipAttribute_part hversion "1.0" (' ' :: partChars "encoding" "UTF-8"
    (' ' :: partChars "standalone" "no" ("?>".toList ++ rest)))
    ((place.afterAll "<?xml".toList).after ' ') (by decide)
  obtain ⟨stop₂, hread₂⟩ := skipAttribute_part hencoding "UTF-8"
    (' ' :: partChars "standalone" "no" ("?>".toList ++ rest)) (stop₁.after ' ') (by decide)
  obtain ⟨stop₃, hread₃⟩ := skipAttribute_part hstandalone "no" ("?>".toList ++ rest)
    (stop₂.after ' ') (by decide)
  have hskip : ∀ tail, Cursor.skip 5 ⟨place, "<?xml".toList ++ tail⟩ =
      ⟨place.afterAll "<?xml".toList, tail⟩ :=
    fun tail => Cursor.skip_append "<?xml".toList tail place
  refine ⟨stop₃.afterAll "?>".toList, ?_⟩
  rw [hsplit, skipXmlDeclaration, hskip]
  simp only [bind, Except.bind, skipSeparator_part hversion, skipSeparator_part hencoding,
    skipSeparator_part hstandalone, startsWith_part, if_true, hread₁, hread₂, hread₃,
    skipBlanks_of_stopsAt _ hstops, expectText_append]
  rfl

end Xml.Cursor

namespace Xml.Builder

theorem skipBlanks_newline {rest : List Char} (hrest : StopsAt isBlank rest) (place : Position) :
    (⟨place, '\n' :: rest⟩ : Cursor).skipBlanks = ⟨place.after '\n', rest⟩ := by
  have hblank : ∀ c ∈ ['\n'], isBlank c = true := List.all_eq_true.mp (by decide)
  exact Cursor.skipBlanks_append place hblank hrest

/-- One comment or instruction before a line feed. -/
theorem miscellany_aside {m : Markup} (haside : m.isAside = true) (hlegible : m.Legible)
    {b : Builder} (hb : b.Idle) (fuel : Nat) (rest : List Char) (place : Position) : ∃ b' stop,
    Changed b (m.read [] :: ·) false b' ∧ Yields (m.Readable [])
      (b.miscellany (fuel + 1) ⟨place, '\n' :: (m.chars ++ '\n' :: rest)⟩)
      (b'.miscellany fuel ⟨stop, '\n' :: rest⟩) := by
  cases m with
  | element e children => simp [Markup.isAside] at haside
  | text value => simp [Markup.isAside] at haside
  | comment value =>
    obtain ⟨stop, hread⟩ := comment_written b ('\n' :: rest) (place.after '\n') hlegible
    refine ⟨_, stop, hb.changed_append _, .of_eq ?_⟩
    have hchars : (Markup.comment value).chars ++ '\n' :: rest =
        "<!--".toList ++ (value.toList ++ ("-->".toList ++ '\n' :: rest)) := by
      simp [Markup.chars]
    have hblank : StopsAt isBlank
        ("<!--".toList ++ (value.toList ++ ("-->".toList ++ '\n' :: rest))) :=
      stopsAt_cons (by decide) _
    rw [hchars, miscellany]
    simp only [skipBlanks_newline hblank, Cursor.startsWith_append, if_true, hread]
    rfl
  | instruction target value =>
    obtain ⟨stop, hread⟩ := instruction_written b ('\n' :: rest) (place.after '\n') hlegible
    refine ⟨_, stop, hb.changed_append _, ?_⟩
    obtain ⟨more, hmore⟩ : ∃ more, (Markup.instruction target value).chars ++ '\n' :: rest =
        '<' :: '?' :: more := by
      cases value with
      | none => exact ⟨_, rfl⟩
      | some v => exact ⟨_, rfl⟩
    rw [hmore] at hread ⊢
    have hblank : StopsAt isBlank ('<' :: '?' :: more) := stopsAt_cons (by decide) _
    have hcomment : ∀ p, (⟨p, '<' :: '?' :: more⟩ : Cursor).startsWith "<!--" = false :=
      fun _ => rfl
    have hinstruction : ∀ p, (⟨p, '<' :: '?' :: more⟩ : Cursor).startsWith "<?" = true :=
      fun p => Cursor.startsWith_append p "<?" more
    rw [miscellany]
    simp only [skipBlanks_newline hblank, hcomment, hinstruction, if_true]
    exact hread.bind _

/-- Comments and instructions are read up to what is neither. -/
theorem miscellany_written (rest : List Char) (hblank : StopsAt isBlank rest)
    (hcomment : ∀ p, (⟨p, rest⟩ : Cursor).startsWith "<!--" = false)
    (hinstruction : ∀ p, (⟨p, rest⟩ : Cursor).startsWith "<?" = false) :
    ∀ (asides : List Markup) {b : Builder} (fuel : Nat) (place : Position),
    (∀ m ∈ asides, m.isAside = true ∧ m.Legible) → b.Idle → asides.length < fuel →
    ∃ b' joins stop, Changed b ((asides.map (Markup.read [])).reverse ++ ·) joins b' ∧
      Yields (∀ m ∈ asides, m.Readable [])
        (b.miscellany fuel ⟨place, '\n' :: (Markup.lineChars asides ++ rest)⟩)
        (.ok (b', ⟨stop, rest⟩)) := by
  intro asides
  induction asides with
  | nil =>
    intro b fuel place _ hb hfuel
    obtain ⟨fuel, rfl⟩ : ∃ n, fuel = n + 1 := ⟨fuel - 1, by simp at hfuel; omega⟩
    refine ⟨b, b.joins, place.after '\n', hb.changed_id, (Yields.of_eq ?_).congr (by simp)⟩
    rw [miscellany]
    simp only [Markup.lineChars, List.flatMap_nil, List.nil_append, skipBlanks_newline hblank,
      hcomment, hinstruction]
    rfl
  | cons m asides ih =>
    intro b fuel place hall hb hfuel
    rw [List.length_cons] at hfuel
    obtain ⟨fuel, rfl⟩ : ∃ n, fuel = n + 1 := ⟨fuel - 1, by omega⟩
    have hlines : Markup.lineChars (m :: asides) ++ rest =
        m.chars ++ '\n' :: (Markup.lineChars asides ++ rest) := by
      simp [Markup.lineChars]
    obtain ⟨haside, hlegible⟩ := hall m List.mem_cons_self
    obtain ⟨b₁, place₁, hfirst, hread⟩ := miscellany_aside haside hlegible hb fuel
      (Markup.lineChars asides ++ rest) place
    obtain ⟨b₂, joins, place₂, hmore, hread'⟩ := ih fuel place₁
      (fun x hx => hall x (List.mem_cons_of_mem m hx)) hfirst.idle (by omega)
    refine ⟨b₂, joins, place₂, ?_, ?_⟩
    · have hall := hfirst.trans hmore
      simpa using hall
    · rw [hlines]
      exact (hread.trans hread').congr List.forall_mem_cons.symm

/-- The outermost element is read up to its end. -/
theorem outermost_written {e : Element} {children : List Markup}
    (hlegible : (Markup.element e children).Legible) {b : Builder} (hb : b.Idle)
    (rest : List Char) (place : Position) : ∃ b' stop,
    Changed b ((Markup.element e children).read b.outerScope :: ·) false b' ∧
      Yields ((Markup.element e children).Readable b.outerScope)
        (b.outermost ⟨place, (Markup.element e children).chars ++ rest⟩)
        (.ok (b', ⟨stop, rest⟩)) := by
  have hstarts : ∀ more, (⟨place, (Markup.element e children).chars ++ more⟩ : Cursor).startsWith
      "<" = true := by
    intro more
    obtain ⟨tail, htail⟩ := Markup.chars_eq_cons (m := .element e children) rfl
    rw [htail]
    exact Cursor.startsWith_append place "<" (tail ++ more)
  rw [outermost, if_pos (hstarts rest)]
  rcases children with _ | ⟨m, ms⟩
  · obtain ⟨b', stop, hchanged, hread⟩ := startTag_closed hlegible.1 hb rest place
    have hchars : (Markup.element e []).chars ++ rest =
        e.startText.toList ++ '/' :: '>' :: rest := by
      simp [Markup.chars]
    refine ⟨b', stop, hchanged, ?_⟩
    rw [hchars]
    exact (hread.bind _).congr (and_iff_left trivial).symm
  · obtain ⟨b₁, b₂, b₃, start, stop, place₃, hstart, hsteps, hend, hchanged⟩ :=
      exists_reads_of_inner (replacement Expansion.maxLevels) rest hlegible.1 hb 0 place _ _
        fun place₁ hb₁ hscope hjoins => steps_children _ _ _ hscope
          (steps_allMarkup _ (e.head?_endChars rest) (m :: ms) "" 0 place₁ hlegible.2 hb₁ hjoins)
    refine ⟨b₃, place₃, hchanged, ?_⟩
    obtain ⟨fuel, hfuel, hcontent⟩ := hsteps _ (Nat.le_refl _)
    -- The end tag is still to be read, so there is a step left for it.
    obtain ⟨n, rfl⟩ : ∃ n, fuel = n + 1 := by
      have hlt := e.length_lt_endChars rest
      exact ⟨fuel - 1, by simp only [] at hfuel; omega⟩
    have hlast : contentWith Expansion.maxLevels (replacement Expansion.maxLevels) (n + 1) 0 b₂
        ⟨stop, e.endChars rest⟩ = .ok (b₃, ⟨place₃, rest⟩) := by
      have hrest : e.endChars rest = '<' :: '/' :: (e.name.toList ++ '>' :: rest) := rfl
      rw [contentWith, hrest]
      rw [hrest] at hend
      simp only [hend]
      rfl
    rw [hlast] at hcontent
    rw [Markup.chars_append]
    exact (hstart.bind _).trans hcontent

end Xml.Builder

/-! ### Whole documents -/

theorem length_le_lineChars (ms : List Markup) : ms.length ≤ (Markup.lineChars ms).length := by
  induction ms with
  | nil => exact Nat.le_refl 0
  | cons m ms ih =>
    have hlines : Markup.lineChars (m :: ms) = m.chars ++ ['\n'] ++ Markup.lineChars ms := rfl
    rw [hlines]
    simp only [List.length_append, List.length_cons, List.length_nil]
    omega

theorem Element.Legible.chars_element {e : Element} (he : e.Legible) (children : List Markup) :
    ∃ c more, (Markup.element e children).chars = '<' :: c :: more ∧ isNameStart c = true := by
  obtain ⟨c, more, hlist, hc⟩ := he.startText_eq_cons
  rw [Markup.chars, hlist]
  split
  · exact ⟨c, _, rfl, hc⟩
  · exact ⟨c, _, rfl, hc⟩

/-- What an element begins with is taken neither for a comment nor for an instruction, nor for
anything else that does not begin with a name. -/
theorem Element.Legible.startsWith_chars {e : Element} (he : e.Legible) (children : List Markup)
    (rest : List Char) (p : Position) {text : String} {d : Char} {s : List Char}
    (htext : text.toList = '<' :: d :: s) (hd : isNameStart d = false) :
    (⟨p, (Markup.element e children).chars ++ rest⟩ : Cursor).startsWith text = false := by
  obtain ⟨c, more, hchars, hc⟩ := he.chars_element children
  have hne : d ≠ c := by
    rintro rfl
    rw [hc] at hd
    exact absurd hd (by decide)
  rw [Cursor.startsWith, hchars, htext]
  simp [List.isPrefixOf, hne]

/-- A document is complete once all its parts have been read. -/
theorem Xml.Builder.finish_eq {b : Builder} {prologue epilogue : List Markup} {e : Element}
    {children : List Markup} (hpath : b.path = [])
    (houter : b.outer = (epilogue.map (Markup.read [])).reverse ++
      (Markup.element e children).read [] :: (prologue.map (Markup.read [])).reverse) :
    b.finish = .ok (Markup.Document.read ⟨prologue, .element e children, epilogue⟩) := by
  have helement : ((Markup.element e children).read []).isElement = true := rfl
  rw [finish, hpath, houter]
  simp [helement, Markup.Document.read]

/-- A written document is read if it can be, and then as what is read of its parts. -/
theorem readDocument_yields {doc : Markup.Document} (hdoc : doc.Legible) {text : String}
    (htext : text.toList = doc.chars) : Yields doc.Readable (readDocument text) (.ok doc.read) := by
  obtain ⟨prologue, root, epilogue⟩ := doc
  obtain ⟨hprologue, hepilogue, helement, hlegible⟩ := hdoc
  obtain ⟨e, children, hroot⟩ := Markup.exists_eq_element helement
  simp only at hroot hlegible hprologue hepilogue
  subst hroot
  -- What stands after the comments and instructions at the head.
  obtain ⟨tail, htail⟩ : ∃ tail, (Markup.element e children).chars ++
      '\n' :: Markup.lineChars epilogue = tail := ⟨_, rfl⟩
  have hstarts : ∀ (p : Position) (text : String) {d : Char} {s : List Char},
      text.toList = '<' :: d :: s → isNameStart d = false →
      (⟨p, tail⟩ : Cursor).startsWith text = false := by
    intro p text d s htext hd
    rw [← htail]
    exact hlegible.1.startsWith_chars children _ p htext hd
  have hblank : StopsAt isBlank tail := by
    obtain ⟨c, more, hchars, -⟩ := hlegible.1.chars_element children
    rw [← htail, hchars]
    exact stopsAt_cons (by decide) _
  have hidle : ({} : Builder).Idle := ⟨rfl, rfl, fun h => absurd rfl h⟩
  obtain ⟨place, hdeclaration⟩ := Cursor.skipXmlDeclaration_written
    ('\n' :: (Markup.lineChars prologue ++ tail)) .start
  obtain ⟨b₁, joins₁, place₁, hchanged₁, hread₁⟩ := Builder.miscellany_written tail hblank
    (fun p => hstarts p "<!--" rfl (by decide)) (fun p => hstarts p "<?" rfl (by decide))
    prologue (b := {}) (('\n' :: (Markup.lineChars prologue ++ tail)).length + 1) place hprologue
    hidle (by
      have hlength := length_le_lineChars prologue
      simp only [List.length_append, List.length_cons]
      omega)
  obtain ⟨b₂, place₂, hchanged₂, hread₂⟩ := Builder.outermost_written hlegible hchanged₁.idle
    ('\n' :: Markup.lineChars epilogue) place₁
  obtain ⟨b₃, joins₃, place₃, hchanged₃, hread₃⟩ := Builder.miscellany_written []
    (by rintro c ⟨⟩) (fun _ => rfl) (fun _ => rfl) epilogue (b := b₂)
    (('\n' :: Markup.lineChars epilogue).length + 1) place₂ hepilogue hchanged₂.idle (by
      have hlength := length_le_lineChars epilogue
      simp only [List.length_cons]
      omega)
  have hscope : b₁.outerScope = [] := hchanged₁.outerScope
  rw [htail, hscope] at hread₂
  rw [hscope] at hchanged₂
  rw [List.append_nil] at hread₃
  have hchanged := (hchanged₁.trans hchanged₂).trans hchanged₃
  have hfinish : b₃.finish =
      .ok (Markup.Document.read ⟨prologue, .element e children, epilogue⟩) := by
    have houter : b₃.outer = (epilogue.map (Markup.read [])).reverse ++
        (Markup.element e children).read [] :: ((prologue.map (Markup.read [])).reverse ++ []) :=
      hchanged.outer
    rw [List.append_nil] at houter
    exact Builder.finish_eq hchanged.path houter
  have hmark : (Cursor.ofString text).skipMark = ⟨.start, Cursor.declaration ++
      '\n' :: (Markup.lineChars prologue ++ tail)⟩ := by
    rw [Cursor.ofString, htext, Markup.Document.chars, Cursor.toList_header, List.append_assoc,
      htail]
    rfl
  have hdeclared : ∀ more, (⟨.start, Cursor.declaration ++ more⟩ : Cursor).startsWith "<?xml " =
      true := fun _ => rfl
  have htyped : b₁.typed ⟨place₁, tail⟩ = .ok (b₁, ⟨place₁, tail⟩) := by
    rw [Builder.typed, hstarts _ "<!DOCTYPE" rfl (by decide)]
    rfl
  have hend : (⟨place₃, []⟩ : Cursor).atEnd = true := rfl
  rw [readDocument, hmark]
  simp only [hdeclared, if_true, hdeclaration, ok_bind]
  refine (hread₁.bind _).trans ?_
  simp only [Cursor.skipBlanks_of_stopsAt _ hblank, htyped, ok_bind]
  refine (hread₂.bind _).trans (((hread₃.bind _).trans (.of_eq ?_)).congr (and_iff_left trivial))
  simp only [hend, Bool.not_true]
  exact hfinish

/-- A well-formed document is read back as its nodes. -/
theorem readDocument_written {doc : Markup.Document} (hwf : doc.WellFormed)
    (hplain : doc.root.Plain) {text : String} (htext : text.toList = doc.chars) :
    readDocument text = .ok doc.nodes := by
  obtain ⟨hlegible, hreadable, hread⟩ := hwf.readable hplain
  rw [← hread]
  exact (readDocument_yields hlegible htext).eq hreadable

end GraphFolding
