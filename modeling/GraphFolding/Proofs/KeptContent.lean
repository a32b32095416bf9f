/-
What is seen of a drawing, when it is written and read again.

Prefixes may be exchanged for others of the same namespace; local names, attribute values and text
are what is seen.

* `Drawing.contents`, `Markup.contents` — the elements in document order with what is seen of each;
* `Markup.contents_reread_iff` — markup keeps its contents if and only if no attribute is called
  what declarations are called and every run of text is read as it is;
* `Drawing.contents_eq_iff` — a drawing that was read and is read again.
-/
import GraphFolding.Proofs.LineEnds
import GraphFolding.Proofs.Rereading
namespace GraphFolding

open Xml

/-- What is seen of an element: its local name, the local names and values of its attributes, and
the text in it. -/
structure ElementContent where
  localName : String
  attributes : List (String × String)
  text : String
  deriving DecidableEq, Repr

/-- What is seen of an element with a text in it. -/
def Element.content (e : Element) (text : String) : ElementContent :=
  ⟨e.localName, e.attributes.map fun a => (Element.localNameOf a.1, a.2), text⟩

/-- What is seen of the elements of a drawing, in document order. -/
def Drawing.contents (d : Drawing) : List ElementContent :=
  (d.descendants d.root).filterMap fun id => (d.element? id).map (·.content (d.textOf id))

namespace Markup

mutual

/-- What is seen of the elements in markup, in document order. -/
def contents : Markup → List ElementContent
  | element e children => e.content (allText children) :: allContents children
  | _ => []

/-- As `contents`, for several of them. -/
def allContents : List Markup → List ElementContent
  | [] => []
  | m :: ms => m.contents ++ allContents ms

end

mutual

/-- Whether no attribute is called what declarations are called. -/
def NoneDeclares : Markup → Prop
  | element e children => (∀ a ∈ e.attributes, (QName.ofText a.1).declares = false) ∧
      AllNoneDeclares children
  | _ => True

/-- As `NoneDeclares`, for several of them. -/
def AllNoneDeclares : List Markup → Prop
  | [] => True
  | m :: ms => m.NoneDeclares ∧ AllNoneDeclares ms

end

/-! ### Contents and places -/

/-- What is seen of an element at a place. -/
def Place.content? (p : Place) : Option ElementContent := p.lineage.head?.map (·.content p.text)

mutual

theorem contents_eq_filterMap : ∀ (m : Markup) (above : List Element),
    m.contents = (m.places above).filterMap Place.content?
  | element e children, above => by
    rw [contents, places, allContents_eq_filterMap children (e :: above)]
    rfl
  | text _, _ => rfl
  | comment _, _ => rfl
  | instruction .., _ => rfl

/-- As `contents_eq_filterMap`, for several of them. -/
theorem allContents_eq_filterMap : ∀ (ms : List Markup) (above : List Element),
    allContents ms = (allPlaces above ms).filterMap Place.content?
  | [], _ => rfl
  | m :: ms, above => by
    rw [allContents, allPlaces, List.filterMap_append, contents_eq_filterMap m above,
      allContents_eq_filterMap ms above]

end

theorem allContents_eq_flatMap (ms : List Markup) : allContents ms = ms.flatMap contents := by
  induction ms with
  | nil => rfl
  | cons m ms ih => rw [allContents, ih, List.flatMap_cons]

theorem filterMap_eq_of_forall₂ {α β γ : Type} {R : α → β → Prop} {f : α → Option γ}
    {g : β → Option γ} {as : List α} {bs : List β} (h : List.Forall₂ R as bs)
    (hfg : ∀ a b, R a b → f a = g b) : as.filterMap f = bs.filterMap g := by
  induction h with
  | nil => rfl
  | cons hab _ ih => rw [List.filterMap_cons, List.filterMap_cons, hfg _ _ hab, ih]

end Markup

theorem Drawing.Holds.contents {d : Drawing} (hd : d.WellLinked) {doc : Markup.Document}
    (h : d.Holds doc) : d.contents = doc.root.contents := by
  have hplaces := h.places hd
  have hfilter : d.contents = ((d.descendants d.root).filter d.isElement).filterMap
      fun id => (d.element? id).map (·.content (d.textOf id)) := by
    rw [List.filterMap_filter]
    refine List.filterMap_congr fun id _ => ?_
    cases he : d.element? id <;> simp [isElement, he]
  rw [hfilter, Markup.contents_eq_filterMap doc.root []]
  refine Markup.filterMap_eq_of_forall₂ hplaces fun id p hp => ?_
  have helement : d.element? id = p.lineage.head? := by
    rw [List.head?_eq_getElem?, ← hp.lineage 0]
    rfl
  rw [helement, hp.text, Markup.Place.content?]

namespace Markup

/-- Texts that do not become longer stay the same together only if each of them does. -/
theorem join_map_eq_join_iff {f : String → String} (hf : ∀ s, (f s).length ≤ s.length)
    (ss : List String) : String.join (ss.map f) = String.join ss ↔ ∀ s ∈ ss, f s = s := by
  have hle : ∀ ss : List String, (String.join (ss.map f)).length ≤ (String.join ss).length := by
    intro ss
    induction ss with
    | nil => exact Nat.le_refl _
    | cons s ss ih =>
      rw [List.map_cons, String.join_cons, String.join_cons, String.length_append,
        String.length_append]
      exact Nat.add_le_add (hf s) ih
  induction ss with
  | nil => simp
  | cons s ss ih =>
    rw [List.map_cons, String.join_cons, String.join_cons, List.forall_mem_cons]
    refine Iff.trans ?_ (and_congr_right' ih)
    constructor
    · intro h
      have hlength := congrArg String.length h
      rw [String.length_append, String.length_append] at hlength
      have hs := hf s
      have hss := hle ss
      have heq : (f s).toList.length = s.toList.length := by
        rw [String.length_toList, String.length_toList]
        omega
      rw [← String.toList_inj, String.toList_append, String.toList_append] at h
      obtain ⟨hfirst, hrest⟩ := List.append_inj h heq
      exact ⟨String.toList_inj.mp hfirst, String.toList_inj.mp hrest⟩
    · rintro ⟨hfirst, hrest⟩
      rw [hfirst, hrest]

theorem mem_allRuns {m : Markup} {run : String} (hrun : run ∈ m.runs) : ∀ {ms : List Markup}
    {pending : String}, m ∈ ms → run ∈ allRuns pending ms := by
  intro ms
  induction ms with
  | nil => simp
  | cons n ms ih =>
    intro pending hm
    rw [allRuns]
    cases hn : n.isText with
    | true =>
      rw [if_pos rfl]
      rcases List.mem_cons.mp hm with rfl | hm
      · cases m <;> simp [isText, runs] at hn hrun
      · exact ih hm
    | false =>
      rw [if_neg (by simp)]
      rcases List.mem_cons.mp hm with rfl | hm
      · simp [hrun]
      · simp [ih hm]

/-! ### Whole markup -/

theorem allContents_reread (inherited inherited' : Scope) (pending : String) (ms : List Markup) :
    allContents (ofNodes inherited (readAll inherited' pending ms)) =
      ms.flatMap fun m => (ofNode inherited (m.read inherited')).contents := by
  rw [allContents_eq_flatMap, ofNodes_eq_map, List.flatMap_map, flatMap_readAll fun _ => rfl]

mutual

/-- Markup has as many elements once it has been read again. -/
theorem length_contents_reread (inherited inherited' : Scope) : ∀ (m : Markup),
    (ofNode inherited (m.read inherited')).contents.length = m.contents.length
  | element e children => by
    rw [read, ofNode, contents, contents, List.length_cons, List.length_cons, allContents_reread,
      length_allContents_reread _ _ children]
  | text _ => rfl
  | comment _ => rfl
  | instruction .. => rfl

/-- As `length_contents_reread`, for several of them. -/
theorem length_allContents_reread (inherited inherited' : Scope) : ∀ (ms : List Markup),
    (ms.flatMap fun m => (ofNode inherited (m.read inherited')).contents).length =
      (allContents ms).length
  | [] => rfl
  | m :: ms => by
    rw [List.flatMap_cons, List.length_append, length_contents_reread, length_allContents_reread,
      allContents, List.length_append]

end

/-- An element keeps its contents if and only if none of its attributes is taken for a declaration
and its text is kept. -/
theorem content_reread_iff {e : Element} (he : e.Legible) (inherited inherited' : Scope)
    (text text' : String) : (Element.ofTag inherited (e.readTag inherited')).content text' =
      e.content text ↔ (∀ a ∈ e.attributes, (QName.ofText a.1).declares = false) ∧ text' = text := by
  rw [Element.content, Element.content, ElementContent.mk.injEq, localName_reread he,
    attributes_reread he, and_iff_right rfl]
  refine and_congr_left' ⟨fun h a ha => ?_, fun h => ?_⟩
  · have hlength : e.plainAttributes.length = e.attributes.length := by
      simpa using congrArg List.length h
    simpa using List.length_filter_eq_length_iff.mp hlength a ha
  · rw [Element.plainAttributes_eq h]

mutual

/-- Markup keeps its contents if and only if no attribute is called what declarations are called
and every run of text is read as it is. -/
theorem contents_reread_iff : ∀ (m : Markup) (inherited inherited' : Scope), m.Legible →
    ((ofNode inherited (m.read inherited')).contents = m.contents ↔
      m.NoneDeclares ∧ ∀ run ∈ m.runs, readText run = run)
  | element e children, inherited, inherited', h => by
    obtain ⟨he, hall⟩ := h
    have hchildren := allContents_reread_iff children (e.readScope inherited')
      (e.readScope inherited') hall
    have htext := join_map_eq_join_iff length_readText_le (allRuns "" children)
    rw [join_allRuns, String.empty_append] at htext
    rw [read, ofNode, contents, contents, List.cons_eq_cons, content_reread_iff he, allContents_reread,
      allText_reread, htext, NoneDeclares, runs]
    constructor
    · rintro ⟨⟨hplain, hruns⟩, hkept⟩
      exact ⟨⟨hplain, (hchildren.mp hkept).1⟩, hruns⟩
    · rintro ⟨⟨hplain, hnone⟩, hruns⟩
      refine ⟨⟨hplain, hruns⟩, hchildren.mpr ⟨hnone, fun m hm run hrun => ?_⟩⟩
      exact hruns run (mem_allRuns hrun hm)
  | text _, _, _, _ => iff_of_true rfl ⟨trivial, by simp [runs]⟩
  | comment _, _, _, _ => iff_of_true rfl ⟨trivial, by simp [runs]⟩
  | instruction .., _, _, _ => iff_of_true rfl ⟨trivial, by simp [runs]⟩

/-- As `contents_reread_iff`, for several of them. -/
theorem allContents_reread_iff : ∀ (ms : List Markup) (inherited inherited' : Scope),
    AllLegible ms →
    ((ms.flatMap fun m => (ofNode inherited (m.read inherited')).contents) = allContents ms ↔
      AllNoneDeclares ms ∧ ∀ m ∈ ms, ∀ run ∈ m.runs, readText run = run)
  | [], _, _, _ => iff_of_true rfl ⟨trivial, by simp⟩
  | m :: ms, inherited, inherited', h => by
    have hm := contents_reread_iff m inherited inherited' h.1
    have hms := allContents_reread_iff ms inherited inherited' h.2
    have happend := append_inj_iff (length_contents_reread inherited inherited' m)
      (ms.flatMap fun m => (ofNode inherited (m.read inherited')).contents) (allContents ms)
    rw [List.flatMap_cons, allContents, happend, hm, hms, AllNoneDeclares, List.forall_mem_cons]
    exact and_and_and_comm

end

end Markup

namespace Drawing

/-- A drawing that was read, written and read again shows the same elements with the same local
names, attribute values and texts if and only if none of its attributes is called what declarations
are called and every carriage return in its text is sheltered. -/
theorem contents_eq_iff {text : String} {d d' : Drawing} (h : ofString text = .ok d)
    (h' : ofString d.text = .ok d') : d'.contents = d.contents ↔
      ∃ doc, d.Holds doc ∧ doc.root.NoneDeclares ∧
        ∀ run ∈ doc.root.runs, ReturnsSheltered false run.toList := by
  obtain ⟨doc, hdoc, hlegible⟩ := exists_legible h
  obtain ⟨-, hdoc'⟩ := holds_reread hdoc hlegible h'
  have hiff := Markup.contents_reread_iff doc.root [] [] hlegible.root
  rw [hdoc.contents (wellLinked_ofString h), hdoc'.contents (wellLinked_ofString h'), hiff]
  simp only [readText_eq_self_iff]
  constructor
  · intro hkept
    exact ⟨doc, hdoc, hkept⟩
  · rintro ⟨doc₁, hdoc₁, hkept⟩
    rwa [GraphFolding.Holds.eq doc.root doc₁.root hdoc.root hdoc₁.root]

/-- What is seen of the drawing in a text. -/
def contentsOf (text : String) : Option (List ElementContent) :=
  (ofString text).toOption.map contents

/-- The same in the text that this drawing is written as. -/
def contentsOfWritten (text : String) : Option (List ElementContent) :=
  (ofString text).toOption.bind fun d => contentsOf d.text

theorem exists_of_contentsOf {text : String} {contents₁ contents₂ : List ElementContent}
    (h₁ : contentsOf text = some contents₁) (h₂ : contentsOfWritten text = some contents₂) :
    ∃ d d', ofString text = .ok d ∧ ofString d.text = .ok d' ∧ d.contents = contents₁ ∧
      d'.contents = contents₂ := by
  obtain ⟨d, hd, rfl⟩ := Option.map_eq_some_iff.mp h₁
  obtain ⟨d₁, hd₁, hwritten⟩ := Option.bind_eq_some_iff.mp h₂
  obtain rfl := Option.some_inj.mp (hd.symm.trans hd₁)
  obtain ⟨d', hd', rfl⟩ := Option.map_eq_some_iff.mp hwritten
  exact ⟨d, d', eq_ok_of_toOption hd, eq_ok_of_toOption hd', rfl, rfl⟩

/-- A document whose text is written with references and in a section, with a carriage return
before a reference, and one at the end after another. -/
def shelteredText : String :=
  "<svg a=\"&#13;&#10;\">&#13;&lt;<![CDATA[<b>]]><g>&gt;&#13;</g></svg>"

theorem contents_eq_sheltered : ∃ d d', ofString shelteredText = .ok d ∧
    ofString d.text = .ok d' ∧ ∃ doc, d.Holds doc ∧ doc.root.NoneDeclares ∧
      ∀ run ∈ doc.root.runs, ReturnsSheltered false run.toList := by
  have hread : contentsOf shelteredText =
      some [⟨"svg", [("a", "\r\n")], "\r<<b>>\r"⟩, ⟨"g", [], ">\r"⟩] := by decide +kernel
  have hreread : contentsOfWritten shelteredText =
      some [⟨"svg", [("a", "\r\n")], "\r<<b>>\r"⟩, ⟨"g", [], ">\r"⟩] := by decide +kernel
  obtain ⟨d, d', hd, hd', h, h'⟩ := exists_of_contentsOf hread hreread
  exact ⟨d, d', hd, hd', (contents_eq_iff hd hd').mp (h'.trans h.symm)⟩

/-- A document with a carriage return that stands beside no reference. -/
def returnText : String := "<svg>&#13;</svg>"

/-- It is not so that a drawing that was read shows the same once it is written and read again:
a carriage return in text is written as it is, and is taken for the end of a line. -/
theorem not_forall_contents_eq : ¬∀ text d d', ofString text = .ok d → ofString d.text = .ok d' →
    d'.contents = d.contents := by
  intro h
  have hread : contentsOf returnText = some [⟨"svg", [], "\r"⟩] := by decide +kernel
  have hreread : contentsOfWritten returnText = some [⟨"svg", [], "\n"⟩] := by decide +kernel
  obtain ⟨d, d', hd, hd', hcontents, hcontents'⟩ := exists_of_contentsOf hread hreread
  have heq := h returnText d d' hd hd'
  rw [hcontents, hcontents'] at heq
  exact absurd heq (by decide)

end Drawing
end GraphFolding
