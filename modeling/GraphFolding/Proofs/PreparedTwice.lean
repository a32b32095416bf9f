/-
A prepared drawing, written, read and prepared again.

* `attributesRead` — the names of the attributes that preparing looks for;
* `Drawing.IsPrepared.of_alike` — a drawing whose elements are those of a prepared one is
  prepared;
* `prepare_reread` — what was prepared is left as it is, if the attributes that are looked for
  keep their names and the stylesheet holds no carriage return;
* `not_forall_prepare_reread` — otherwise there may be a second stylesheet.
-/
import GraphFolding.Proofs.TidyTables
namespace GraphFolding.Drawing

open ClassList (IsWord)
open Xml (Scope Binding)

variable {d d' : Drawing} {r : FoldRules} {s : StyleRules} {options : PrepareOptions}

theorem exists_of_mem_left {α β : Type} {R : α → β → Prop} {as : List α} {bs : List β}
    (h : List.Forall₂ R as bs) {a : α} (ha : a ∈ as) : ∃ b ∈ bs, R a b := by
  induction h with
  | nil => simp at ha
  | cons hab _ ih =>
    rcases List.mem_cons.mp ha with rfl | ha
    · exact ⟨_, List.mem_cons_self, hab⟩
    · obtain ⟨b, hb, hR⟩ := ih ha
      exact ⟨b, List.mem_cons_of_mem _ hb, hR⟩

/-- The names of the attributes that preparing looks for: those of class lists, of clusters and of
references, and that of the script if there is to be one. -/
def attributesRead (r : FoldRules) (options : PrepareOptions) : List String :=
  "class" :: r.clusterAttribute :: r.hrefAttributes ++
    if options.scriptHref.isSome then ["xlink:href"] else []

namespace Alike

variable {keys : List String} {id id' : NodeId} (h : Alike keys d d' id id')
include h

theorem map_face :
    (d'.element? id').map (Element.face keys) = (d.element? id).map (Element.face keys) :=
  h.lineage 0

theorem isNamed_eq (localName : String) : d'.isNamed localName id' = d.isNamed localName id := by
  have hface : ∀ x : Option Element, (x.any fun e => e.localName = localName) =
      (x.map (Element.face keys)).any fun face => face.1 = localName := by
    intro x
    rw [Option.any_map]
    rfl
  rw [isNamed, hface, h.map_face, ← hface, isNamed]

theorem attribute?_eq {key : String} (hkey : key ∈ keys) :
    d'.attribute? id' key = d.attribute? id key := by
  have hface := h.map_face
  rw [attribute?, attribute?]
  cases he : d.element? id with
  | none =>
    rw [he, Option.map_none, Option.map_eq_none_iff] at hface
    rw [hface]
  | some e =>
    rw [he, Option.map_some] at hface
    obtain ⟨e', he', hsame⟩ := Option.map_eq_some_iff.mp hface
    rw [he']
    exact List.map_inj_left.mp (Prod.mk.inj hsame).2 key hkey

end Alike

/-- The elements of a drawing, in document order. -/
def elements (d : Drawing) : List NodeId := (d.descendants d.root).filter d.isElement

theorem mem_elementsNamed {localName : String} {id : NodeId} :
    id ∈ d.elementsNamed localName ↔ id ∈ d.elements ∧ d.isNamed localName id = true := by
  rw [elementsNamed, elements, List.mem_filter, List.mem_filter, and_assoc]
  exact and_congr_right fun _ => (and_iff_right_of_imp isElement_of_isNamed).symm

section Alike

variable {keys : List String} (h : List.Forall₂ (Alike keys d d') d.elements d'.elements)
include h

theorem exists_alike_of_mem {localName : String} {id : NodeId}
    (hid : id ∈ d.elementsNamed localName) :
    ∃ id' ∈ d'.elementsNamed localName, Alike keys d d' id id' := by
  obtain ⟨hmem, hnamed⟩ := mem_elementsNamed.mp hid
  obtain ⟨id', hmem', halike⟩ := exists_of_mem_left h hmem
  exact ⟨id', mem_elementsNamed.mpr ⟨hmem', (halike.isNamed_eq localName).trans hnamed⟩, halike⟩

theorem exists_origin_of_mem {localName : String} {id' : NodeId}
    (hid : id' ∈ d'.elementsNamed localName) :
    ∃ id ∈ d.elementsNamed localName, Alike keys d d' id id' := by
  obtain ⟨hmem', hnamed⟩ := mem_elementsNamed.mp hid
  have hflip : List.Forall₂ (flip (Alike keys d d')) d'.elements d.elements := h.flip
  obtain ⟨id, hmem, halike⟩ := exists_of_mem_left hflip hmem'
  refine ⟨id, mem_elementsNamed.mpr ⟨hmem, ?_⟩, halike⟩
  exact (Alike.isNamed_eq halike localName).symm.trans hnamed

end Alike

section Read

variable (h : List.Forall₂ (Alike (attributesRead r options) d d') d.elements d'.elements)
include h

/-- A drawing whose elements are those of a wired one is wired. -/
theorem IsWired.of_alike (hd' : d'.ParentsAreElements) (hwired : d.IsWired r) :
    d'.IsWired r := by
  have hclass : "class" ∈ attributesRead r options := by simp [attributesRead]
  have hcluster : r.clusterAttribute ∈ attributesRead r options := by simp [attributesRead]
  have hreference : ∀ {link link'}, Alike (attributesRead r options) d d' link link' →
      d'.reference? r link' = d.reference? r link := fun halike =>
    reference?_congr fun key hkey => halike.attribute?_eq (by simp [attributesRead, hkey])
  constructor
  · intro link' hlink' cluster hrefers
    obtain ⟨link, hlink, halike⟩ := exists_origin_of_mem h hlink'
    rw [hreference halike] at hrefers
    rw [halike.attribute?_eq hcluster]
    exact hwired.stamped link hlink cluster hrefers
  · intro id' hid'
    obtain ⟨link', hlink', hrefers, hancestor'⟩ := mem_placeholderContainers.mp hid'
    obtain ⟨link, hlink, halike⟩ := exists_origin_of_mem h hlink'
    rw [refersToPlaceholder, hreference halike] at hrefers
    -- The container is an element, and so there is one at the same place.
    have helement' := isElement_of_ancestor? hd' (isElement_of_mem_anchors hlink') hancestor'
    have hface := halike.lineage r.containerDepth
    rw [hancestor', Option.bind_some] at hface
    obtain ⟨e', he'⟩ := Option.isSome_iff_exists.mp helement'
    rw [he', Option.map_some] at hface
    obtain ⟨e, he, hsame⟩ := Option.map_eq_some_iff.mp hface.symm
    obtain ⟨id, hancestor, he⟩ := Option.bind_eq_some_iff.mp he
    obtain ⟨value, hvalue, hswitch⟩ := hwired.hidden id
      (mem_placeholderContainers.mpr ⟨link, hlink, hrefers, hancestor⟩)
    refine ⟨value, ?_, hswitch⟩
    rw [attribute?, he] at hvalue
    rw [attribute?, he', Option.bind_some, ← List.map_inj_left.mp (Prod.mk.inj hsame).2 _ hclass]
    exact hvalue

/-- A drawing whose elements are those of a prepared one is prepared, if it declares what the
script needs and no text was changed. -/
theorem IsPrepared.of_alike (hd' : d'.ParentsAreElements)
    (hreturn : options.inlineStyle = true → '\r' ∉ (stylesheet r s).toList)
    (hdeclares : d.Declares "xlink" → d'.Declares "xlink") (hprepared : d.IsPrepared r s options) :
    d'.IsPrepared r s options := by
  refine ⟨IsWired.of_alike h hd' hprepared.toIsWired, fun hinline => ?_, fun href hhref => ?_⟩
  · obtain ⟨style, hstyle, htext⟩ := List.any_eq_true.mp (hprepared.styled hinline)
    obtain ⟨style', hstyle', halike⟩ := exists_alike_of_mem h hstyle
    have hcss := of_decide_eq_true htext
    refine List.any_eq_true.mpr ⟨style', hstyle', decide_eq_true ?_⟩
    rw [halike.text (hcss ▸ hreturn hinline), hcss]
  · obtain ⟨hscript, hdeclared⟩ := hprepared.scripted href hhref
    refine ⟨?_, hdeclares hdeclared⟩
    obtain ⟨script, hmem, hrefers⟩ := List.any_eq_true.mp hscript
    obtain ⟨script', hmem', halike⟩ := exists_alike_of_mem h hmem
    refine List.any_eq_true.mpr ⟨script', hmem', ?_⟩
    have hkey : "xlink:href" ∈ attributesRead r options := by
      rw [attributesRead, if_pos (Option.isSome_of_mem hhref)]
      exact List.mem_append_right _ (List.mem_singleton_self _)
    rwa [halike.attribute?_eq hkey]

end Read

/-! ### Declarations read again -/

/-- A prefix that is declared outermost is declared there again. -/
theorem binds_declarations_ofTag {e : Element} {name : String} (hname : name ≠ "xml")
    (hsound : ∀ b ∈ e.declarations, b.Sound)
    (h : Scope.binds e.declarations (some name) = true) :
    Scope.binds (Element.ofTag [] (e.readTag [])).declarations (some name) = true := by
  obtain ⟨b, hb, hbname⟩ := List.any_eq_true.mp h
  have hbname : b.name = some name := of_decide_eq_true hbname
  have hdeclared : b ∈ e.declared := by
    refine List.mem_filterMap.mpr ⟨(b.written, b.uri), ?_, Xml.binding?_written (hsound b hb).uri_ne_xml⟩
    exact List.mem_append_left _ (List.mem_map.mpr ⟨b, hb, rfl⟩)
  have hscope : e.readScope [] = e.declared := by
    rw [Element.readScope, Scope.extend]
    split
    · rename_i hempty
      rw [List.isEmpty_iff.mp hempty]
    · rfl
  refine List.any_eq_true.mpr ⟨b, List.mem_filter.mpr ⟨?_, ?_⟩, decide_eq_true hbname⟩
  · show b ∈ e.readScope []
    rwa [hscope]
  · simp [hbname, hname]

theorem declares_reread {doc : Markup.Document} (hd : d.Tidy) (h : d.Holds doc)
    {doc' : Markup.Document} (h' : d'.Holds doc') (hroot : doc'.root = .ofNode [] (doc.root.read []))
    {name : String} (hname : name ≠ "xml") (hdeclares : d.Declares name) : d'.Declares name := by
  obtain ⟨e, he, hbinds⟩ := hdeclares
  obtain ⟨ids, hnode, -⟩ := h.root.node
  obtain ⟨ids', hnode', -⟩ := h'.root.node
  rw [element?, hnode] at he
  cases hm : doc.root with
  | element x children =>
    rw [hm] at he
    obtain rfl : x = e := Option.some_inj.mp he
    have hsound := (hd.contents (content?_of_holds h.root))
    rw [hm] at hsound
    refine ⟨Element.ofTag [] (x.readTag []), ?_,
      binds_declarations_ofTag hname hsound.2 hbinds⟩
    rw [element?, hnode', hroot, hm]
    rfl
  | _ => simp [hm, Markup.content] at he

/-! ### Prepared again -/

/-- A prepared drawing that is written and read again is left as it is by preparing it again: it
gets no second stylesheet, no second script, and no attribute of it is changed. -/
theorem prepare_reread {text : String} {d₁ d₂ : Drawing} {w : Wiring} {doc : Markup.Document}
    (h : ofString text = .ok d) (hword : IsWord r.hiddenClass)
    (hcluster : r.clusterAttribute ≠ "class") (hhref : "class" ∉ r.hrefAttributes)
    (h₁ : d.prepare r s options = some (d₁, w))
    (hreturn : options.inlineStyle = true → '\r' ∉ (stylesheet r s).toList)
    (hdoc : d₁.Holds doc) (hsettled : doc.root.Settled (attributesRead r options) [])
    (h₂ : ofString d₁.text = .ok d₂) : ∃ w₂, d₂.prepare r s options = some (d₂, w₂) := by
  have hd := wellLinked_ofString h
  obtain ⟨hd₁, hextended⟩ := hd.prepare h₁
  have hd₂ := wellLinked_ofString h₂
  have htidy := (tidy_ofString h).prepare hd h₁
  -- The drawing has an `svg` element, and so its outermost node is an element.
  obtain ⟨svg, -, hsvg, -, -⟩ := exists_eq_of_prepare h₁
  have hnamed : svg ∈ d.elementsNamed "svg" :=
    List.mem_filter.mpr ⟨List.mem_of_find?_eq_some hsvg, (List.find?_eq_some_iff_append.mp hsvg).1⟩
  have helement := isElement_of_isNamed (List.mem_filter.mp hnamed).2
  have hnamed₁ := (hextended.mem_elementsNamed_iff hd hd₁ (lt_size_of_isElement helement) "svg").mpr
    hnamed
  have hroot : d₁.isElement d₁.root := by
    obtain ⟨k, hk⟩ := hd₁.mem_descendants_iff.mp (List.mem_filter.mp hnamed₁).1
    exact isElement_of_ancestor? hd₁.parentsAreElements (hextended.isElement helement) hk
  have hlegible := htidy.legible hroot hdoc hsettled
  have halike := forall₂_alike hd₁ hdoc hlegible hsettled h₂
  obtain ⟨-, hdoc₂⟩ := holds_reread hdoc hlegible h₂
  have hprepared := (isPrepared_prepare hword hcluster hhref hd h₁).of_alike halike
    hd₂.parentsAreElements hreturn
    (declares_reread htidy hdoc hdoc₂ rfl (by decide))
  obtain ⟨svg₂, hsvg₂, -⟩ := exists_alike_of_mem halike hnamed₁
  obtain ⟨svg', hsvg'⟩ := Option.isSome_iff_exists.mp (isSome_svgRoot?.mpr ⟨svg₂, hsvg₂⟩)
  exact ⟨_, hprepared.prepare_eq hsvg'⟩

/-- A link that stands for placeholder edges, in the element that is its container. -/
def linkText : String := "<svg><a href=\"not_m\"/></svg>"

/-- The drawing of that link. -/
def linkDrawing : Drawing where
  nodes := #[⟨.element ⟨"svg", [], []⟩, none, [1]⟩,
    ⟨.element ⟨"a", [], [("href", "not_m")]⟩, some 0, []⟩]
  root := 0
  prologue := []
  epilogue := []

/-- The rules under which the container of a link is the element around it. -/
def shallowRules : FoldRules := { containerDepth := 1 }

/-- The document of that drawing once it has been prepared. -/
def preparedLink : Markup.Document where
  prologue := []
  root := .element ⟨"svg", [⟨some "xlink", xlinkUri⟩], [("class", "hide")]⟩
    [.element ⟨"style", [], [("type", "text/css")]⟩ [.text (stylesheet shallowRules {})],
      .element ⟨"a", [], [("href", "not_m"), ("cluster", "not_m")]⟩ [],
      .element (scriptElement "m.js") []]
  epilogue := []

/-- The drawing that holds this document. -/
def preparedLinkDrawing : Drawing where
  nodes := #[⟨.element ⟨"svg", [⟨some "xlink", xlinkUri⟩], [("class", "hide")]⟩, none, [2, 1, 4]⟩,
    ⟨.element ⟨"a", [], [("href", "not_m"), ("cluster", "not_m")]⟩, some 0, []⟩,
    ⟨.element ⟨"style", [], [("type", "text/css")]⟩, some 0, [3]⟩,
    ⟨.text (stylesheet shallowRules {}), some 2, []⟩,
    ⟨.element (scriptElement "m.js"), some 0, []⟩]
  root := 0
  prologue := []
  epilogue := []

theorem prepare_reread_link : ∃ d₂ w₂, ofString linkText = .ok linkDrawing ∧
    linkDrawing.prepare shallowRules {} ⟨true, some "m.js"⟩ =
      some (preparedLinkDrawing, ⟨[], [1], [0]⟩) ∧
    preparedLinkDrawing.Holds preparedLink ∧
    preparedLink.root.Settled (attributesRead shallowRules ⟨true, some "m.js"⟩) [] ∧
    ofString preparedLinkDrawing.text = .ok d₂ ∧
    d₂.prepare shallowRules {} ⟨true, some "m.js"⟩ = some (d₂, w₂) := by
  have hread : ofString linkText = .ok linkDrawing := eq_ok_of_toOption (by decide +kernel)
  have hprepare : linkDrawing.prepare shallowRules {} ⟨true, some "m.js"⟩ =
      some (preparedLinkDrawing, ⟨[], [1], [0]⟩) := by decide +kernel
  have hholds : preparedLinkDrawing.Holds preparedLink :=
    ⟨rfl, ⟨[2, 1, 4], rfl, 2, _, rfl, ⟨[3], rfl, 3, _, rfl, rfl, rfl⟩, 1, _, rfl,
      ⟨[], rfl, rfl⟩, 4, _, rfl, ⟨[], rfl, rfl⟩, rfl⟩, rfl⟩
  have hsettled : preparedLink.root.Settled (attributesRead shallowRules ⟨true, some "m.js"⟩) [] := by
    decide +kernel
  have hreturn : '\r' ∉ (stylesheet shallowRules {}).toList := by decide +kernel
  obtain ⟨d₂, hreread⟩ : ∃ d₂, ofString preparedLinkDrawing.text = .ok d₂ := by
    have hsome : (ofString preparedLinkDrawing.text).toOption.isSome = true := by decide +kernel
    obtain ⟨d₂, hd₂⟩ := Option.isSome_iff_exists.mp hsome
    exact ⟨d₂, eq_ok_of_toOption hd₂⟩
  obtain ⟨w₂, hagain⟩ := prepare_reread hread (by decide) (by decide) (by decide) hprepare
    (fun _ => hreturn) hholds hsettled hreread
  exact ⟨d₂, w₂, hread, hprepare, hholds, hsettled, hreread, hagain⟩

/-- The numbers of styles and of scripts in a drawing. -/
def additions (d : Drawing) : Nat × Nat :=
  ((d.elementsNamed "style").length, (d.elementsNamed "script").length)

/-- The numbers of styles and of scripts in a text that was prepared, written and read again, and
in the same drawing prepared once more. -/
def additionsOfTwice (text : String) (r : FoldRules) (s : StyleRules) (options : PrepareOptions) :
    Option ((Nat × Nat) × (Nat × Nat)) :=
  (ofString text).toOption.bind fun d => (d.prepare r s options).bind fun once =>
    (ofString once.1.text).toOption.bind fun d₂ => (d₂.prepare r s options).map fun twice =>
      (d₂.additions, twice.1.additions)

theorem exists_of_additionsOfTwice {text : String} {before after : Nat × Nat}
    (h : additionsOfTwice text r s options = some (before, after)) :
    ∃ d d₁ w d₂ d₃ w₃, ofString text = .ok d ∧ d.prepare r s options = some (d₁, w) ∧
      ofString d₁.text = .ok d₂ ∧ d₂.prepare r s options = some (d₃, w₃) ∧
      d₂.additions = before ∧ d₃.additions = after := by
  obtain ⟨d, hd, h⟩ := Option.bind_eq_some_iff.mp h
  obtain ⟨⟨d₁, w⟩, hd₁, h⟩ := Option.bind_eq_some_iff.mp h
  obtain ⟨d₂, hd₂, h⟩ := Option.bind_eq_some_iff.mp h
  obtain ⟨⟨d₃, w₃⟩, hd₃, h⟩ := Option.map_eq_some_iff.mp h
  obtain ⟨hbefore, hafter⟩ := Prod.mk.inj h
  exact ⟨d, d₁, w, d₂, d₃, w₃, eq_ok_of_toOption hd, hd₁, eq_ok_of_toOption hd₂, hd₃, hbefore,
    hafter⟩

/-- It is not so that preparing a prepared file adds nothing: a carriage return in the stylesheet
is read as the end of a line, and so the stylesheet is not found again. -/
theorem not_forall_prepare_reread : ¬∀ text r s options d d₁ d₂ w, ofString text = .ok d →
    IsWord r.hiddenClass → r.clusterAttribute ≠ "class" → r.targetAttribute ≠ "class" →
    "class" ∉ r.hrefAttributes → d.prepare r s options = some (d₁, w) →
    ofString d₁.text = .ok d₂ → ∃ d₃ w₃, d₂.prepare r s options = some (d₃, w₃) ∧
      d₃.elementsNamed "style" = d₂.elementsNamed "style" ∧
      d₃.elementsNamed "script" = d₂.elementsNamed "script" ∧
      ∀ id key, d₃.attribute? id key = d₂.attribute? id key := by
  intro h
  have hadditions : additionsOfTwice "<svg/>" {} { extraCss := some "a\rb" } ⟨true, none⟩ =
      some ((1, 0), (2, 0)) := by decide +kernel
  obtain ⟨d, d₁, w, d₂, d₃, w₃, hd, hd₁, hd₂, hd₃, hbefore, hafter⟩ :=
    exists_of_additionsOfTwice hadditions
  obtain ⟨d₃', w₃', hd₃', hstyles, -⟩ := h "<svg/>" {} { extraCss := some "a\rb" } ⟨true, none⟩ d d₁
    d₂ w hd (by decide) (by decide) (by decide) (by decide) hd₁ hd₂
  obtain ⟨rfl, -⟩ := Prod.mk.inj (Option.some_inj.mp (hd₃.symm.trans hd₃'))
  have hone : (d₂.elementsNamed "style").length = 1 := (Prod.mk.inj hbefore).1
  have htwo : (d₃.elementsNamed "style").length = 2 := (Prod.mk.inj hafter).1
  rw [hstyles, hone] at htwo
  exact absurd htwo (by decide)

/-- Where another prefix is bound to the namespace of links first, the reference of the script is
read under that one, and so the script is not found again either. -/
example : additionsOfTwice "<svg xmlns:x=\"http://www.w3.org/1999/xlink\"/>" {} {}
    ⟨false, some "m.js"⟩ = some ((0, 1), (0, 2)) := by decide +kernel

end GraphFolding.Drawing
