/-
The namespaces of the style and the script that preparing adds.

A style and a script are added under plain names, and only the outermost element gets the prefix of
links, unless it declares this prefix already.  What they stand for in the written text depends on
the bindings in force at the `svg` element that they are added to:

* `Drawing.forall₂_readTag` — the start tags that are read of a written drawing, element by element;
* `Drawing.uri?_supplement` — a supplement binds the prefix of links wherever it is not bound;
* `Drawing.joins_iff` — the style and the script are in the namespace of the `svg` element, and the
  reference of the script in that of links, if and only if nothing else is bound there;
* `Drawing.not_forall_joins` — under an `svg` element with a prefix they are in no namespace.
-/
import GraphFolding.Proofs.AttributeNames
import GraphFolding.Proofs.PreparedTwice
import GraphFolding.Proofs.Supplements
import GraphFolding.Proofs.TableOrder
namespace GraphFolding

open Xml

namespace Element

/-- An element with a prefix declared binds it if it did not, and is left alone if it did. -/
theorem uri?_declared_ensureNamespace {e : Element} {p uri : String}
    (h : ∀ b ∈ e.declarations, b.uri ≠ Scope.xmlUri) (huri : uri ≠ Scope.xmlUri)
    (haccepted : AllAcceptable [] (e.ensureNamespace p uri).pairs) (name : Option String) :
    Scope.uri? (e.ensureNamespace p uri).declared name =
      (Scope.uri? e.declared name).or (if name = some p then some uri else none) := by
  rw [ensureNamespace] at haccepted ⊢
  cases hbinds : Scope.binds e.declarations (some p) with
  | true =>
    rw [if_pos rfl]
    by_cases hname : name = some p
    · obtain ⟨u, hu⟩ := Scope.exists_uri?_of_binds hbinds
      rw [hname, declared_eq_append h, Scope.uri?_append, hu]
      rfl
    · rw [if_neg hname, Option.or_none]
  | false =>
    rw [hbinds, if_neg (by decide), pairs, allAcceptable_append] at haccepted
    rw [if_neg (by decide)]
    have huris : ∀ b ∈ e.declarations ++ [⟨some p, uri⟩], b.uri ≠ Scope.xmlUri := by
      intro b hb
      rcases List.mem_append.mp hb with hb | hb
      · exact h b hb
      · rw [List.mem_singleton.mp hb]
        exact huri
    rw [filterMap_written huris] at haccepted
    -- The prefix is declared by now, and so no attribute declares it.
    have hattributes := binds_filterMap_binding? (p := p) haccepted.2 (by simp [Scope.binds])
    rw [← Scope.isSome_uri?] at hattributes
    rw [declared_eq_append h, declared_eq_append huris]
    simp only [Scope.uri?_append]
    by_cases hname : name = some p
    · have hold : Scope.uri? e.declarations (some p) = none := by
        rw [← Option.not_isSome_iff_eq_none, Scope.isSome_uri?, hbinds]
        decide
      have hnone := Option.not_isSome_iff_eq_none.mp (Bool.eq_false_iff.mp hattributes)
      rw [if_pos hname, hname, hold, hnone]
      simp [Scope.uri?]
    · have hnone : Scope.uri? [⟨some p, uri⟩] name = none := by
        simp [Scope.uri?, Ne.symm hname]
      rw [if_neg hname, hnone, Option.or_none, Option.or_none]

/-- What declares nothing has the bindings that are in force around it. -/
theorem readScope_eq_self {e : Element} (hdeclarations : e.declarations = [])
    (hattributes : ∀ a ∈ e.attributes, (QName.ofText a.1).declares = false)
    (inherited : Scope) : e.readScope inherited = inherited := by
  rw [readScope, declared_eq (by simp [hdeclarations]) hattributes, hdeclarations]
  rfl

end Element

namespace Drawing

variable {d d' : Drawing} {r : FoldRules} {s : StyleRules}

/-! ### Written drawings -/

theorem exists_zip_of_mem {α β : Type} {R : α → β → Prop} {as : List α} {bs : List β}
    (h : List.Forall₂ R as bs) {a : α} (ha : a ∈ as) : ∃ b, (a, b) ∈ as.zip bs ∧ R a b := by
  induction h with
  | nil => simp at ha
  | cons hab _ ih =>
    rw [List.zip_cons_cons]
    rcases List.mem_cons.mp ha with rfl | ha
    · exact ⟨_, List.mem_cons_self, hab⟩
    · obtain ⟨b, hb, hR⟩ := ih ha
      exact ⟨b, List.mem_cons_of_mem _ hb, hR⟩

/-- Whether all attributes of a drawing are called by qualified names. -/
def NamesAttributes (d : Drawing) : Prop :=
  ∀ id e, d.element? id = some e → ∀ a ∈ e.attributes, IsQName a.1

theorem exists_attribute?_of_mem {id : NodeId} {e : Element} (he : d.element? id = some e)
    {a : String × String} (ha : a ∈ e.attributes) : (d.attribute? id a.1).isSome = true := by
  rw [attribute?, he, Option.bind_some, Element.attribute?, List.lookup_isSome_iff]
  exact ⟨a, ha, by simp⟩

theorem exists_mem_of_attribute? {id : NodeId} {key : String}
    (h : (d.attribute? id key).isSome = true) :
    ∃ e, d.element? id = some e ∧ ∃ a ∈ e.attributes, a.1 = key := by
  obtain ⟨value, hvalue⟩ := Option.isSome_iff_exists.mp h
  obtain ⟨e, he, hvalue⟩ := Option.bind_eq_some_iff.mp hvalue
  refine ⟨e, he, ?_⟩
  have hsome : (e.attributes.lookup key).isSome = true := by
    rw [Element.attribute?] at hvalue
    rw [hvalue]
    rfl
  obtain ⟨a, ha, heq⟩ := List.lookup_isSome_iff.mp hsome
  exact ⟨a, ha, (by simpa using heq : key = a.1).symm⟩

theorem namesAttributes_ofString {text : String} (h : ofString text = .ok d) :
    d.NamesAttributes := by
  rw [ofString] at h
  cases hread : readDocument text with
  | error e => simp [hread] at h
  | ok nodes =>
    rw [hread] at h
    intro id e he a ha
    have helement : d.isElement id = true := by rw [isElement, he]; rfl
    have hmem : id ∈ d.elementIds :=
      List.mem_filter.mpr ⟨List.mem_range.mpr (lt_size_of_isElement helement), helement⟩
    obtain ⟨tag, htag, inherited, hofTag⟩ := exists_of_mem_left (hasTags_ofDocument h) hmem
    obtain ⟨around, hsound⟩ := exists_sound_of_mem_allTags hread tag htag
    obtain rfl := Option.some_inj.mp (he.symm.trans hofTag)
    obtain ⟨x, hx, rfl⟩ := List.mem_map.mp ha
    exact hsound.coherent.isQName_storedName x.uri (hsound.attributes x hx).written.2

theorem NamesAttributes.wire (h : d.NamesAttributes) (hcluster : IsQName r.clusterAttribute) :
    (d.wire r).1.NamesAttributes := by
  intro id e he a ha
  have hsome := exists_attribute?_of_mem he ha
  by_cases hclass : a.1 = "class"
  · rw [hclass]
    decide
  · rw [attribute?_wire d r id hclass] at hsome
    by_cases hstamp : a.1 = r.clusterAttribute
    · rwa [hstamp]
    · rw [if_neg fun h => hstamp h.2] at hsome
      obtain ⟨e', he', a', ha', heq⟩ := exists_mem_of_attribute? hsome
      exact heq ▸ h id e' he' a' ha'

theorem NamesAttributes.supplement (h : d.NamesAttributes) (svg : NodeId) (x : Supplement) :
    (d.supplement svg x).NamesAttributes := by
  intro id e he a ha
  rcases Nat.lt_or_ge id d.nodes.size with hid | hid
  · rw [element?_supplement hid] at he
    obtain ⟨old, hold, rfl⟩ := Option.map_eq_some_iff.mp he
    refine h id old hold a ?_
    split at ha
    · rw [Element.ensureNamespace] at ha
      split at ha <;> exact ha
    · exact ha
  · rw [element?_eq] at he
    obtain ⟨node, hnode, hcontent⟩ := Option.bind_eq_some_iff.mp he
    rcases exists_new_of_getElem? hid hnode with ⟨css, -, rfl | rfl⟩ | ⟨href, -, rfl⟩
    · obtain rfl := Option.some_inj.mp hcontent
      rw [List.mem_singleton.mp ha]
      decide
    · simp at hcontent
    · obtain rfl := Option.some_inj.mp hcontent
      rcases List.mem_pair.mp ha with rfl | rfl
      · exact (by decide : IsQName "xlink:href")
      · exact (by decide : IsQName "type")

theorem Tidy.sound_declarations (hd : d.Tidy) {id : NodeId} {e : Element}
    (he : d.element? id = some e) : ∀ b ∈ e.declarations, b.Sound := by
  rw [element?_eq] at he
  obtain ⟨⟨content, parent, children⟩, hnode, hcontent⟩ := Option.bind_eq_some_iff.mp he
  have htidy : content.Tidy := hd.contents (by rw [content?, hnode]; rfl)
  cases content with
  | element x =>
    obtain rfl := Option.some_inj.mp hcontent
    exact htidy.2
  | _ => simp at hcontent

mutual

theorem NamesAttributes.settled_of_holds (hd : d.NamesAttributes) : ∀ (m : Markup)
    {parent : Option NodeId} {id : NodeId} {inherited : Scope},
    GraphFolding.Holds d.nodes parent id m → m.Settled [] inherited
  | .element e children, parent, id, inherited, h => by
    obtain ⟨ids, hnode, hall⟩ := h
    have helement : d.element? id = some e := by rw [element?, hnode]
    exact ⟨fun a ha => ⟨hd id e helement a ha, by simp⟩, hd.allSettled_of_holdsAll children hall⟩
  | .text _, _, _, _, _ => trivial
  | .comment _, _, _, _, _ => trivial
  | .instruction .., _, _, _, _ => trivial

/-- As `NamesAttributes.settled_of_holds`, for several of them. -/
theorem NamesAttributes.allSettled_of_holdsAll (hd : d.NamesAttributes) : ∀ (ms : List Markup)
    {parent : Option NodeId} {ids : List NodeId} {inherited : Scope},
    HoldsAll d.nodes parent ids ms → Markup.AllSettled [] inherited ms
  | [], _, _, _, _ => trivial
  | m :: ms, _, _, _, h => by
    obtain ⟨id, rest, rfl, hm, hms⟩ := h
    exact ⟨hd.settled_of_holds m hm, hd.allSettled_of_holdsAll ms hms⟩

end

section Read

variable (hd : d.WellLinked) (htidy : d.Tidy) (hnames : d.NamesAttributes)
  (hroot : d.isElement d.root = true) {nodes : List Xml.Node}
  (hread : readDocument d.text = .ok nodes)
include hd htidy hnames hroot hread

/-- The document that is read of a written drawing is the one that it holds. -/
theorem exists_readable_of_readDocument :
    ∃ doc, d.Holds doc ∧ doc.Legible ∧ doc.Readable ∧ doc.read = nodes := by
  obtain ⟨doc, hdoc⟩ := hd.toIsForest.exists_holds
  have hlegible := htidy.legible hroot hdoc (hnames.settled_of_holds doc.root hdoc.root)
  obtain ⟨hreadable, hnodes⟩ := (readDocument_yields hlegible hdoc.toList_text).eq_ok_iff.mp hread
  exact ⟨doc, hdoc, hlegible, hreadable, hnodes⟩

/-- The start tags that are read of a written drawing are those of its elements. -/
theorem forall₂_readTag : List.Forall₂ (fun id tag => ∃ lineage, d.StandsIn id lineage ∧
    Markup.tagWithin? lineage = some tag) d.elements (allTags nodes) := by
  obtain ⟨doc, hdoc, hlegible, -, rfl⟩ :=
    exists_readable_of_readDocument hd htidy hnames hroot hread
  have hplaces : List.Forall₂ (fun id tag? => ∃ lineage, d.StandsIn id lineage ∧
      Markup.tagWithin? lineage = tag?) d.elements
      ((doc.root.places []).map fun p => Markup.tagWithin? p.lineage) :=
    List.forall₂_map_right_iff.mpr ((hdoc.places hd).imp fun id p hat => ⟨_, hat.lineage, rfl⟩)
  rw [← Markup.Document.allTags_read hlegible] at hplaces
  exact List.forall₂_map_right_iff.mp hplaces

/-- A start tag is read of every element below the outermost one. -/
theorem exists_zip_tagWithin? {id : NodeId} {lineage : List Element}
    (hid : d.isElement id = true) (habove : ∃ n, d.ancestor? id n = some d.root)
    (hstands : d.StandsIn id lineage) : ∃ tag, (id, tag) ∈ d.elements.zip (allTags nodes) ∧
      Markup.tagWithin? lineage = some tag := by
  have hmem : id ∈ d.elements := List.mem_filter.mpr ⟨hd.mem_descendants_iff.mpr habove, hid⟩
  obtain ⟨tag, htag, lineage', hstands', heq⟩ :=
    exists_zip_of_mem (forall₂_readTag hd htidy hnames hroot hread) hmem
  exact ⟨tag, htag, hstands.eq hstands' ▸ heq⟩

/-- The start tag of a child is read under the bindings in force at its parent. -/
theorem mem_zip_readTag {id p : NodeId} {e : Element} {ids : List NodeId} {lineage : List Element}
    (hnode : d.nodes[id]? = some ⟨.element e, some p, ids⟩)
    (habove : ∃ n, d.ancestor? p n = some d.root) (hstands : d.StandsIn p lineage) :
    (id, e.readTag (Markup.scopeWithin lineage)) ∈ d.elements.zip (allTags nodes) := by
  have hparent := parent?_of_getElem? hnode
  have helement : d.element? id = some e := by rw [element?, hnode]
  obtain ⟨n, hn⟩ := habove
  obtain ⟨tag, htag, heq⟩ := exists_zip_tagWithin? hd htidy hnames hroot hread
    (by rw [isElement, helement]; rfl) ⟨n + 1, (ancestor?_of_parent? hparent n).trans hn⟩
    (hstands.cons helement hparent)
  obtain rfl := Option.some_inj.mp heq
  exact htag

/-- Nothing that the outermost element is written with is refused. -/
theorem allAcceptable_root {e : Element} (he : d.element? d.root = some e) :
    AllAcceptable [] e.pairs := by
  obtain ⟨doc, hdoc, -, hreadable, -⟩ :=
    exists_readable_of_readDocument hd htidy hnames hroot hread
  obtain ⟨ids, hnode, -⟩ := hdoc.root.node
  rw [element?, hnode] at he
  have hroot := hreadable.2.1
  cases hm : doc.root with
  | element x children =>
    rw [hm] at he hroot
    obtain rfl : x = e := Option.some_inj.mp he
    exact hroot.1.values
  | _ => simp [hm, Markup.content] at he

end Read

/-! ### Bindings in force -/

/-- A supplement with the prefix of links binds it wherever it is not bound, and changes no other
binding that is in force. -/
theorem uri?_supplement (hd : d.WellLinked) (hroot : d.isElement d.root = true)
    (hsound : ∀ e ∈ d.element? d.root, ∀ b ∈ e.declarations, b.uri ≠ Scope.xmlUri) {svg : NodeId}
    {x : Supplement} (hx : x.linkPrefix = true)
    (haccepted : ∀ e ∈ (d.supplement svg x).element? d.root, AllAcceptable [] e.pairs) {k : Nat} :
    ∀ {id : NodeId}, d.ancestor? id k = some d.root → d.isElement id = true →
    ∃ lineage lineage', d.StandsIn id lineage ∧ (d.supplement svg x).StandsIn id lineage' ∧
      ∀ name, (Markup.scopeWithin lineage').uri? name =
        ((Markup.scopeWithin lineage).uri? name).or
          (if name = some "xlink" then some xlinkUri else none) := by
  induction k with
  | zero =>
    intro id hid _
    obtain rfl : id = d.root := Option.some_inj.mp hid
    obtain ⟨hlt, hparent⟩ := hd.outermost d.root List.mem_cons_self
    obtain ⟨e, he⟩ := Option.isSome_iff_exists.mp hroot
    have he' : (d.supplement svg x).element? d.root =
        some (e.ensureNamespace "xlink" xlinkUri) := by
      rw [element?_supplement hlt, he]
      simp [hx]
    refine ⟨[e], [e.ensureNamespace "xlink" xlinkUri], standsIn_singleton he hparent,
      standsIn_singleton he' ((parent?_supplement hlt).trans hparent), fun name => ?_⟩
    have hdeclared := Element.uri?_declared_ensureNamespace (hsound e he)
      (by decide : xlinkUri ≠ Scope.xmlUri) (haccepted _ he') name
    simp only [Markup.scopeWithin, Element.readScope, Scope.uri?_extend, hdeclared]
    simp [Scope.uri?]
  | succ k ih =>
    intro id hid hself
    obtain ⟨p, hp, hk⟩ := Option.bind_eq_some_iff.mp hid
    have hlt := lt_size_of_isElement hself
    have hne : id ≠ d.root := by
      rintro rfl
      exact absurd ((hd.outermost d.root List.mem_cons_self).2.symm.trans hp) (by simp)
    obtain ⟨e, he⟩ := Option.isSome_iff_exists.mp hself
    have he' : (d.supplement svg x).element? id = some e := by
      rw [element?_supplement hlt, he]
      simp [hne]
    obtain ⟨lineage, lineage', hlineage, hlineage', huri⟩ :=
      ih hk (hd.parentsAreElements id p hp)
    refine ⟨e :: lineage, e :: lineage', hlineage.cons he hp,
      hlineage'.cons he' ((parent?_supplement hlt).trans hp), fun name => ?_⟩
    simp only [Markup.scopeWithin, Element.readScope, Scope.uri?_extend, huri, Option.or_assoc]

/-! ### Styles and scripts -/

/-- The start tags that are read of an `svg` element, and of a style before and a script after the
children that it had. -/
def ReadsAdditions (d prepared : Drawing) (nodes : List Xml.Node) (svg : NodeId)
    (svgTag styleTag scriptTag : Tag) : Prop :=
  ∃ style script, prepared.children svg = style :: (d.children svg ++ [script]) ∧
    (svg, svgTag) ∈ prepared.elements.zip (allTags nodes) ∧
    (style, styleTag) ∈ prepared.elements.zip (allTags nodes) ∧
    (script, scriptTag) ∈ prepared.elements.zip (allTags nodes)

/-- A style and a script in the namespace of an `svg` element, with a reference in that of links. -/
structure Joins (svgTag styleTag scriptTag : Tag) : Prop where
  style : styleTag.uri = svgTag.uri
  script : scriptTag.uri = svgTag.uri
  href : ∃ a ∈ scriptTag.attributes, a.expandedName = (some xlinkUri, "href")

theorem uri_readTag_style (scope : Scope) :
    (Element.readTag scope ⟨"style", [], [("type", "text/css")]⟩).uri = scope.uri? none := by
  have hattributes : ∀ a ∈ [("type", "text/css")], (QName.ofText a.1).declares = false := by decide
  have hname : (QName.ofText "style").qualifier? = none := by decide
  rw [Element.readTag, Element.readScope_eq_self rfl hattributes, hname]

theorem readTag_script (scope : Scope) (href : String) :
    ((scriptElement href).readTag scope).uri = scope.uri? none ∧
      ((∃ a ∈ ((scriptElement href).readTag scope).attributes,
        a.expandedName = (some xlinkUri, "href")) ↔ scope.uri? (some "xlink") = some xlinkUri) := by
  have hattributes : ∀ a ∈ (scriptElement href).attributes,
      (QName.ofText a.1).declares = false := by
    intro a ha
    rcases List.mem_pair.mp ha with rfl | rfl
    · exact (by decide : (QName.ofText "xlink:href").declares = false)
    · exact (by decide : (QName.ofText "type").declares = false)
  have hname : (QName.ofText "script").qualifier? = none := by decide
  have hlink : QName.ofText "xlink:href" = ⟨"xlink", "href"⟩ := by decide
  have htype : QName.ofText "type" = ⟨"", "type"⟩ := by decide
  have hscope := Element.readScope_eq_self (e := scriptElement href) rfl hattributes scope
  constructor
  · rw [Element.readTag, hscope]
    exact congrArg scope.uri? hname
  · rw [Element.readTag, hscope, Element.plainAttributes_eq hattributes]
    simp [scriptElement, Scope.attribute, Attribute.expandedName, hlink, htype, Scope.attributeUri,
      QName.qualifier?]

/-- A style and a script join an element if and only if the bindings in force at them say so. -/
theorem joins_readTag_iff (scope : Scope) (svgTag : Tag) (href : String) :
    Joins svgTag (Element.readTag scope ⟨"style", [], [("type", "text/css")]⟩)
      ((scriptElement href).readTag scope) ↔
    scope.uri? none = svgTag.uri ∧ scope.uri? (some "xlink") = some xlinkUri := by
  have hstyleUri := uri_readTag_style scope
  obtain ⟨hscriptUri, hhref⟩ := readTag_script scope href
  rw [← hhref]
  constructor
  · intro h
    exact ⟨hstyleUri.symm.trans h.style, h.href⟩
  · rintro ⟨hsvg, hhref⟩
    exact ⟨hstyleUri.trans hsvg, hscriptUri.trans hsvg, hhref⟩

section Added

variable {svg : NodeId} (css href : String)

theorem getElem?_supplement_style (d : Drawing) (svg : NodeId) :
    (d.supplement svg ⟨some css, some href, true⟩).nodes[d.nodes.size]? =
      some ⟨.element ⟨"style", [], [("type", "text/css")]⟩, some svg, [d.nodes.size + 1]⟩ := by
  rw [getElem?_supplement, if_neg (Nat.lt_irrefl _), Nat.sub_self]
  rfl

theorem getElem?_supplement_script (d : Drawing) (svg : NodeId) :
    (d.supplement svg ⟨some css, some href, true⟩).nodes[d.nodes.size + 2]? =
      some ⟨.element (scriptElement href), some svg, []⟩ := by
  rw [getElem?_supplement, if_neg (Nat.not_lt_of_le (Nat.le_add_right ..)),
    Nat.add_sub_cancel_left]
  rfl

theorem children_supplement_svg (hsvg : svg < d.nodes.size) :
    (d.supplement svg ⟨some css, some href, true⟩).children svg =
      d.nodes.size :: (d.children svg ++ [d.nodes.size + 2]) := by
  obtain ⟨node, hnode⟩ : ∃ node, d.nodes[svg]? = some node := ⟨_, Array.getElem?_eq_getElem hsvg⟩
  have hadjusted : (d.supplement svg ⟨some css, some href, true⟩).nodes[svg]? = some
      (Supplement.adjust ⟨some css, some href, true⟩ d.root svg d.nodes.size svg node) := by
    rw [getElem?_supplement, if_pos hsvg, hnode]
    rfl
  rw [children_of_getElem? hadjusted, children_of_getElem? hnode]
  simp [Supplement.adjust, Supplement.around]

end Added

/-- The start tags that are read of a style and a script that were added with the prefix of
links. -/
theorem exists_readsAdditions (hd : d.WellLinked) (htidy : d.Tidy) (hnames : d.NamesAttributes)
    {svg : NodeId} (hsvg : svg ∈ d.descendants d.root) (helement : d.isElement svg = true)
    {css href : String} (hd' : (d.supplement svg ⟨some css, some href, true⟩).WellLinked)
    (htidy' : (d.supplement svg ⟨some css, some href, true⟩).Tidy) {nodes : List Xml.Node}
    (hread : readDocument (d.supplement svg ⟨some css, some href, true⟩).text = .ok nodes) :
    ∃ lineage svgTag styleTag scriptTag, d.StandsIn svg lineage ∧
      d.ReadsAdditions (d.supplement svg ⟨some css, some href, true⟩) nodes svg svgTag styleTag
        scriptTag ∧
      (Joins svgTag styleTag scriptTag ↔
        (Markup.scopeWithin lineage).uri? none = svgTag.uri ∧
          ∀ uri ∈ (Markup.scopeWithin lineage).uri? (some "xlink"), uri = xlinkUri) := by
  obtain ⟨k, hk⟩ := hd.mem_descendants_iff.mp hsvg
  have hroot := isElement_of_ancestor? hd.parentsAreElements helement hk
  have hnames' := hnames.supplement svg ⟨some css, some href, true⟩
  have hextended := (enriched_supplement d svg ⟨some css, some href, true⟩).toExtended
  have hroot' := hextended.isElement hroot
  have habove := hextended.grown.ancestor? hk
  -- The bindings in force at the `svg` element, before and now.
  obtain ⟨lineage, lineage', hlineage, hlineage', huri⟩ := uri?_supplement hd hroot
    (fun e he b hb => (htidy.sound_declarations he b hb).uri_ne_xml) rfl
    (fun e he => allAcceptable_root hd' htidy' hnames' hroot' hread he) hk helement
  have hdefault : (Markup.scopeWithin lineage').uri? none =
      (Markup.scopeWithin lineage).uri? none := by
    rw [huri, if_neg (by simp), Option.or_none]
  have hlink : (Markup.scopeWithin lineage').uri? (some "xlink") = some xlinkUri ↔
      ∀ uri ∈ (Markup.scopeWithin lineage).uri? (some "xlink"), uri = xlinkUri := by
    rw [huri, if_pos rfl]
    cases (Markup.scopeWithin lineage).uri? (some "xlink") <;> simp
  obtain ⟨svgTag, hsvgTag, -⟩ := exists_zip_tagWithin? hd' htidy' hnames' hroot' hread
    (hextended.isElement helement) ⟨k, habove⟩ hlineage'
  have hstyleTag := mem_zip_readTag hd' htidy' hnames' hroot' hread
    (getElem?_supplement_style css href d svg) ⟨k, habove⟩ hlineage'
  have hscriptTag := mem_zip_readTag hd' htidy' hnames' hroot' hread
    (getElem?_supplement_script css href d svg) ⟨k, habove⟩ hlineage'
  refine ⟨lineage, svgTag, _, _, hlineage, ⟨_, _, children_supplement_svg css href
    (lt_size_of_isElement helement), hsvgTag, hstyleTag, hscriptTag⟩, ?_⟩
  rw [joins_readTag_iff, hdefault, hlink]

/-- The style and the script that preparing adds are read in the namespace of the `svg` element, and
the reference of the script in that of links, if and only if the default namespace at this element
is its own, and the prefix of links is bound there to nothing else. -/
theorem joins_iff {text href : String} {prepared : Drawing} {w : Wiring} {nodes : List Xml.Node}
    (h : ofString text = .ok d) (hcluster : IsQName r.clusterAttribute)
    (hstyle : d.hasStyle (stylesheet r s) = false) (hscript : d.hasScript href = false)
    (hprepare : d.prepare r s ⟨true, some href⟩ = some (prepared, w))
    (hread : readDocument prepared.text = .ok nodes) :
    ∃ svg lineage svgTag styleTag scriptTag, d.svgRoot? = some svg ∧
      (d.wire r).1.StandsIn svg lineage ∧
      d.ReadsAdditions prepared nodes svg svgTag styleTag scriptTag ∧
      (Joins svgTag styleTag scriptTag ↔
        (Markup.scopeWithin lineage).uri? none = svgTag.uri ∧
          ∀ uri ∈ (Markup.scopeWithin lineage).uri? (some "xlink"), uri = xlinkUri) := by
  have hd := wellLinked_ofString h
  obtain ⟨svg, -, hsvg, -, -⟩ := exists_eq_of_prepare hprepare
  have hmissing : d.missing r s ⟨true, some href⟩ = ⟨some (stylesheet r s), some href, true⟩ := by
    simp [missing, hstyle, hscript, Option.filter]
  have hsupplement := (prepare_eq_supplement hd hsvg r s ⟨true, some href⟩).symm.trans hprepare
  obtain ⟨rfl, -⟩ := Prod.mk.inj (Option.some_inj.mp hsupplement)
  have hprepared := (hd.prepare hprepare).1
  have htidy := (tidy_ofString h).prepare hd hprepare
  rw [hmissing] at hprepared htidy hread ⊢
  obtain ⟨hwired, hextended⟩ := hd.wire r
  have hbare := bare_wire d r
  have hmem : svg ∈ (d.wire r).1.descendants (d.wire r).1.root := by
    rw [root_eq hbare, descendants_eq hbare]
    exact List.mem_of_find?_eq_some hsvg
  have helement := hextended.isElement
    (isElement_of_isNamed (List.find?_eq_some_iff_append.mp hsvg).1)
  obtain ⟨lineage, svgTag, styleTag, scriptTag, hlineage, hadditions, hiff⟩ :=
    exists_readsAdditions hwired ((tidy_ofString h).of_bare_eq hbare)
      ((namesAttributes_ofString h).wire hcluster) hmem helement hprepared htidy hread
  refine ⟨svg, lineage, svgTag, styleTag, scriptTag, hsvg, hlineage, ?_, hiff⟩
  obtain ⟨style, script, hchildren, htags⟩ := hadditions
  rw [children_eq_of_skeleton_eq (skeleton_eq_of_bare_eq hbare)] at hchildren
  exact ⟨style, script, hchildren, htags⟩

/-- The namespace of drawings. -/
def svgUri : String := "http://www.w3.org/2000/svg"

/-- A drawing with nothing in it, whose element has a name and declares a prefix for its namespace,
or the default one. -/
def emptySvg (name : String) (declared : Option String) : Drawing where
  nodes := #[⟨.element ⟨name, [⟨declared, svgUri⟩], []⟩, none, []⟩]
  root := 0
  prologue := []
  epilogue := []

/-- The same with a style and a script. -/
def preparedSvg (name : String) (declared : Option String) : Drawing where
  nodes := #[⟨.element ⟨name, [⟨declared, svgUri⟩, ⟨some "xlink", xlinkUri⟩], []⟩, none, [1, 3]⟩,
    ⟨.element ⟨"style", [], [("type", "text/css")]⟩, some 0, [2]⟩,
    ⟨.text (stylesheet {} {}), some 1, []⟩, ⟨.element (scriptElement "m.js"), some 0, []⟩]
  root := 0
  prologue := []
  epilogue := []

theorem joins_emptySvg : ∃ nodes svgTag styleTag scriptTag,
    ofString "<svg xmlns=\"http://www.w3.org/2000/svg\"/>" = .ok (emptySvg "svg" none) ∧
    (emptySvg "svg" none).prepare {} {} ⟨true, some "m.js"⟩ =
      some (preparedSvg "svg" none, {}) ∧
    readDocument (preparedSvg "svg" none).text = .ok nodes ∧
    (emptySvg "svg" none).ReadsAdditions (preparedSvg "svg" none) nodes 0 svgTag styleTag
      scriptTag ∧ Joins svgTag styleTag scriptTag := by
  have hsource : ofString "<svg xmlns=\"http://www.w3.org/2000/svg\"/>" =
      .ok (emptySvg "svg" none) := eq_ok_of_toOption (by decide +kernel)
  have hprepare : (emptySvg "svg" none).prepare {} {} ⟨true, some "m.js"⟩ =
      some (preparedSvg "svg" none, {}) := by decide +kernel
  have hroot : (emptySvg "svg" none).svgRoot? = some 0 := by decide +kernel
  have helement : ((emptySvg "svg" none).wire {}).1.element? 0 =
      some ⟨"svg", [⟨none, svgUri⟩], []⟩ := by decide +kernel
  have htags : (tagsRead? (preparedSvg "svg" none).text).any (fun tags => decide
      (∀ entry ∈ (preparedSvg "svg" none).elements.zip tags,
        entry.1 = 0 → entry.2.uri = some svgUri)) = true := by decide +kernel
  obtain ⟨tags, htags, huri⟩ := (Option.any_eq_true ..).mp htags
  obtain ⟨nodes, hread, rfl⟩ := exists_of_tagsRead? htags
  obtain ⟨svg, lineage, svgTag, styleTag, scriptTag, hsvg, hlineage, hadditions, hiff⟩ :=
    joins_iff hsource (by decide) (by decide +kernel) (by decide +kernel) hprepare hread
  obtain rfl : svg = 0 := Option.some_inj.mp (hsvg.symm.trans hroot)
  obtain rfl := hlineage.eq (standsIn_singleton helement (by decide +kernel))
  obtain ⟨-, -, -, hsvgTag, -⟩ := id hadditions
  refine ⟨nodes, svgTag, styleTag, scriptTag, hsource, hprepare, hread, hadditions,
    hiff.mpr ⟨?_, ?_⟩⟩
  · rw [of_decide_eq_true huri _ hsvgTag rfl]
    decide
  · decide

/-- What is added is not in the namespace of the `svg` element wherever this is that of drawings:
under an element with a prefix, plain names stand for no namespace. -/
theorem not_forall_joins :
    ¬∀ text nodes d svg sourceTag prepared w nodes' svgTag styleTag scriptTag,
    readDocument text = .ok nodes → ofDocument nodes = .ok d → d.svgRoot? = some svg →
    (svg, sourceTag) ∈ d.elementIds.zip (allTags nodes) → sourceTag.uri = some svgUri →
    d.hasStyle (stylesheet {} {}) = false → d.hasScript "m.js" = false →
    d.prepare {} {} ⟨true, some "m.js"⟩ = some (prepared, w) →
    readDocument prepared.text = .ok nodes' →
    d.ReadsAdditions prepared nodes' svg svgTag styleTag scriptTag →
    Joins svgTag styleTag scriptTag := by
  intro h
  have hsource : tagsRead? "<s:svg xmlns:s=\"http://www.w3.org/2000/svg\"/>" =
      some [⟨⟨"s", "svg"⟩, some svgUri, [⟨some "s", svgUri⟩], []⟩] := by decide +kernel
  have hdrawing : ofString "<s:svg xmlns:s=\"http://www.w3.org/2000/svg\"/>" =
      .ok (emptySvg "s:svg" (some "s")) := eq_ok_of_toOption (by decide +kernel)
  obtain ⟨nodes, hread, htags⟩ := exists_of_tagsRead? hsource
  rw [ofString, hread] at hdrawing
  have hprepared : (tagsRead? (preparedSvg "s:svg" (some "s")).text).any (fun tags =>
      tags.length = 3 && tags[1]?.map (·.uri) ≠ tags[0]?.map (·.uri)) = true := by decide +kernel
  obtain ⟨tags, hprepared, hapart⟩ := (Option.any_eq_true ..).mp hprepared
  simp only [Bool.and_eq_true, decide_eq_true_eq] at hapart
  obtain ⟨hlength, hapart⟩ := hapart
  obtain ⟨nodes', hread', rfl⟩ := exists_of_tagsRead? hprepared
  obtain ⟨svgTag, styleTag, scriptTag, htags'⟩ := List.length_eq_three.mp hlength
  have helements : (preparedSvg "s:svg" (some "s")).elements = [0, 1, 3] := by decide +kernel
  have hadditions : (emptySvg "s:svg" (some "s")).ReadsAdditions (preparedSvg "s:svg" (some "s"))
      nodes' 0 svgTag styleTag scriptTag := by
    refine ⟨1, 3, rfl, ?_⟩
    rw [htags', helements]
    simp
  have hsvgTag : ((0 : NodeId), (⟨⟨"s", "svg"⟩, some svgUri, [⟨some "s", svgUri⟩], []⟩ : Tag)) ∈
      (emptySvg "s:svg" (some "s")).elementIds.zip (allTags nodes) := by
    rw [htags]
    decide
  have hjoins := h _ nodes _ 0 _ (preparedSvg "s:svg" (some "s")) {} nodes' svgTag styleTag
    scriptTag hread hdrawing
    (by decide +kernel) hsvgTag rfl (by decide +kernel) (by decide +kernel) (by decide +kernel)
    hread' hadditions
  rw [htags'] at hapart
  exact hapart (congrArg some hjoins.style)

end Drawing
end GraphFolding
