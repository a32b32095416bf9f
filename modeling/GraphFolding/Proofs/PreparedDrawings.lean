/-
Drawings that are prepared already.

* `Drawing.Enriched` — a drawing with new nodes, none of them a link, in which old ones are as
  they were;
* `Drawing.IsPrepared` — a wired drawing with the stylesheet and the script in it;
* `IsPrepared.prepare_eq` — preparing leaves such a drawing as it is;
* `isPrepared_prepare` — a prepared drawing is such a one.
-/
import GraphFolding.Proofs.Editing
import GraphFolding.Proofs.Places
import GraphFolding.Proofs.StyleInsertion
import GraphFolding.Proofs.WiredDrawings
namespace GraphFolding.Drawing

open ClassList (IsWord)

variable {d d' d'' : Drawing} {r : FoldRules} {s : StyleRules} {options : PrepareOptions}

/-! ### Old nodes -/

theorem isNamed_eq_any_name? (d : Drawing) (localName : String) (id : NodeId) :
    d.isNamed localName id = (d.name? id).any (Element.localNameOf · = localName) := by
  rw [name?, Option.any_map, isNamed]
  rfl

/-- Above an old node there is what there was. -/
theorem Extended.ancestor?_eq (h : Extended d d') (hd : d.WellLinked) (n : Nat) :
    ∀ {id : NodeId}, id < d.nodes.size → d'.ancestor? id n = d.ancestor? id n := by
  induction n with
  | zero => exact fun _ => rfl
  | succ n ih =>
    intro id hid
    rw [ancestor?, ancestor?, h.parent? id hid]
    rcases hp : d.parent? id with _ | p
    · rfl
    · exact ih (hd.parent_lt hp)

theorem Extended.mem_elementsNamed_iff (h : Extended d d') (hd : d.WellLinked)
    (hd' : d'.WellLinked) {id : NodeId} (hid : id < d.nodes.size) (localName : String) :
    id ∈ d'.elementsNamed localName ↔ id ∈ d.elementsNamed localName := by
  simp only [elementsNamed, List.mem_filter, hd.mem_descendants_iff, hd'.mem_descendants_iff,
    h.ancestor?_eq hd _ hid, h.grown.root, isNamed_eq_any_name?, h.name? id hid]

/-- A drawing with new nodes, none of them a link, in which old ones hang where they hung and
have the attributes that they had. -/
structure Enriched (d d' : Drawing) : Prop extends Extended d d' where
  attribute? : ∀ id < d.nodes.size, ∀ key, d'.attribute? id key = d.attribute? id key
  isNamed_eq_false : ∀ id, d.nodes.size ≤ id → d'.isNamed "a" id = false

theorem isNamed_eq_false_of_size_le {id : NodeId} (h : d.nodes.size ≤ id) (localName : String) :
    d.isNamed localName id = false := by
  rw [isNamed, element?_eq, Array.getElem?_eq_none h]
  rfl

theorem Enriched.refl (d : Drawing) : Enriched d d :=
  ⟨.refl d, fun _ _ _ => rfl, fun _ h => isNamed_eq_false_of_size_le h "a"⟩

theorem Enriched.trans (h : Enriched d d') (h' : Enriched d' d'') : Enriched d d'' where
  toExtended := h.toExtended.trans h'.toExtended
  attribute? id hid key := by
    rw [h'.attribute? id (Nat.lt_of_lt_of_le hid h.size_le), h.attribute? id hid]
  isNamed_eq_false id hid := by
    by_cases hlt : id < d'.nodes.size
    · rw [isNamed_eq_any_name?, h'.name? id hlt, ← isNamed_eq_any_name?, h.isNamed_eq_false id hid]
    · exact h'.isNamed_eq_false id (Nat.le_of_not_lt hlt)

namespace Enriched

variable (h : Enriched d d') (hd : d.WellLinked) (hd' : d'.WellLinked)
include h hd hd'

theorem mem_anchors {link : NodeId} (hlink : link ∈ d'.anchors) :
    link ∈ d.anchors ∧ link < d.nodes.size := by
  have hlt : link < d.nodes.size := by
    refine Nat.lt_of_not_le fun hle => ?_
    have hnamed := (List.mem_filter.mp hlink).2
    rw [h.isNamed_eq_false link hle] at hnamed
    simp at hnamed
  exact ⟨(h.mem_elementsNamed_iff hd hd' hlt "a").mp hlink, hlt⟩

/-- What is put into a wired drawing leaves it wired. -/
theorem isWired (hwired : d.IsWired r) : d'.IsWired r := by
  have hreference : ∀ {link}, link < d.nodes.size →
      d'.reference? r link = d.reference? r link :=
    fun hlt => reference?_congr fun key _ => h.attribute? _ hlt key
  constructor
  · intro link hlink cluster hcluster
    obtain ⟨hmem, hlt⟩ := h.mem_anchors hd hd' hlink
    rw [hreference hlt] at hcluster
    rw [h.attribute? link hlt]
    exact hwired.stamped link hmem cluster hcluster
  · intro id hid
    obtain ⟨link, hlink, hrefers, hancestor⟩ := mem_placeholderContainers.mp hid
    obtain ⟨hmem, hlt⟩ := h.mem_anchors hd hd' hlink
    rw [refersToPlaceholder, hreference hlt] at hrefers
    rw [h.ancestor?_eq hd _ hlt] at hancestor
    have hold := hd.ancestor_lt hlt hancestor
    obtain ⟨value, hvalue, hswitch⟩ := hwired.hidden id
      (mem_placeholderContainers.mpr ⟨link, hmem, hrefers, hancestor⟩)
    exact ⟨value, (h.attribute? id hold "class").trans hvalue, hswitch⟩

end Enriched

theorem WellLinked.parentsAreElements (hd : d.WellLinked) : d.ParentsAreElements :=
  fun _ p hp => hd.elements p (List.ne_nil_of_mem (hd.listed hp))

/-! ### Text -/

/-- Two drawings with the same text in their nodes have the same text below them, if their
children agree as far as there is text below them. -/
theorem WellLinked.textOf_eq_of_join_eq (hd : d.WellLinked) (hd' : d'.WellLinked)
    (htext : ∀ id, d'.textAt id = d.textAt id)
    (hjoin : ∀ id, String.join ((d'.children id).map d.textOf) =
      String.join ((d.children id).map d.textOf)) (id : NodeId) : d'.textOf id = d.textOf id := by
  induction id using hd'.acyclic.induction with
  | _ id ih =>
    rw [hd'.textOf_eq_append, hd.textOf_eq_append, htext, ← hjoin, List.map_congr_left ih]

theorem textOf_eq_of_skeleton_eq (hd : d.WellLinked) (h : d'.skeleton = d.skeleton)
    (id : NodeId) : d'.textOf id = d.textOf id := by
  refine hd.textOf_eq_of_join_eq (hd.of_skeleton_eq h) (fun id => ?_) (fun id => ?_) id
  · rw [← textAt_mapElements d' Element.unadorned, ← skeleton, h, skeleton, textAt_mapElements]
  · rw [children_eq_of_skeleton_eq h]

/-- What a node holds. -/
def content? (d : Drawing) (id : NodeId) : Option NodeContent := d.nodes[id]?.map (·.content)

theorem textAt_eq (d : Drawing) (id : NodeId) : d.textAt id =
    match d.content? id with
    | some (.text value) => value
    | _ => "" := by
  unfold textAt content?
  rcases d.nodes[id]? with _ | ⟨content, parent, children⟩
  · rfl
  · cases content <;> rfl

theorem content?_eq_none {id : NodeId} (h : d.nodes.size ≤ id) : d.content? id = none := by
  rw [content?, Array.getElem?_eq_none h]
  rfl

theorem content?_pushNode (d : Drawing) (content : NodeContent) (id : NodeId) :
    (d.pushNode content none).1.content? id =
      if id = d.nodes.size then some content else d.content? id := by
  rw [content?, getElem?_pushNode, content?]
  split <;> rfl

theorem content?_modifyNode (d : Drawing) (id i : NodeId) {change : Node → Node}
    (h : ∀ node, (change node).content = node.content) :
    (d.modifyNode id change).content? i = d.content? i := by
  rw [content?, getElem?_modifyNode, content?]
  split
  · rw [Option.map_map]
    exact congrArg (d.nodes[i]?.map ·) (funext h)
  · rfl

theorem content?_insertChild (d : Drawing) (parent child : NodeId) (index : Nat) (i : NodeId) :
    (d.insertChild parent index child).content? i = d.content? i := by
  rw [insertChild, modifyChildren, content?_modifyNode, content?_modifyNode]
  · exact fun _ => rfl
  · exact fun _ => rfl

theorem element?_insertChild (d : Drawing) (parent child : NodeId) (index : Nat) (i : NodeId) :
    (d.insertChild parent index child).element? i = d.element? i := by
  rw [insertChild, modifyChildren, element?_modifyNode, element?_modifyNode]
  · exact fun _ => rfl
  · exact fun _ => rfl

/-- A node without text, put anywhere, adds no text. -/
theorem Attached.textOf_eq {parent child : NodeId} (h : Attached d d' parent child)
    (hd : d.WellLinked) (hd' : d'.WellLinked) (htext : ∀ id, d'.textAt id = d.textAt id)
    (hchild : d.textOf child = "") (id : NodeId) : d'.textOf id = d.textOf id := by
  refine hd.textOf_eq_of_join_eq hd' htext (fun id => ?_) id
  by_cases hid : id = parent
  · obtain ⟨before, after, hbefore, hafter⟩ := h.children_parent
    rw [hid, hbefore, hafter, List.map_append, List.map_append, List.map_cons, String.join_append,
      String.join_append, String.join_cons, hchild, String.empty_append]
  · rw [h.children_of_ne id hid]

/-! ### The stylesheet -/

theorem isSome_svgRoot? : d.svgRoot?.isSome = true ↔ ∃ svg, svg ∈ d.elementsNamed "svg" := by
  rw [svgRoot?, List.find?_isSome]
  simp only [elementsNamed, List.mem_filter]

theorem exists_ancestor?_root_of_svgRoot? (hd : d.WellLinked) {svg : NodeId}
    (h : svg ∈ d.descendants d.root) {child : NodeId} (h' : Extended d d')
    (hparent : d'.parent? child = some svg) : ∃ k, d'.ancestor? child k = some d'.root := by
  obtain ⟨k, hk⟩ := hd.mem_descendants_iff.mp h
  refine ⟨k + 1, ?_⟩
  rw [ancestor?_of_parent? hparent, h'.grown.ancestor? hk, h'.grown.root]

section Inserted

variable (hd : d.WellLinked) {svg : NodeId} (hsvg : svg ∈ d.descendants d.root)
  (helement : d.isElement svg)
include hd helement

theorem enriched_injectStyle (css : String) : Enriched d (d.injectStyle svg css) := by
  cases hcss : d.hasStyle css with
  | true =>
    rw [injectStyle, if_pos hcss]
    exact .refl d
  | false =>
    have hlt := lt_size_of_isElement helement
    refine ⟨(hd.injectStyle helement css).2, fun id hid key => ?_, fun id hid => ?_⟩
    · rw [attribute?, element?_injectStyle hcss hlt hid, attribute?]
    · rw [isNamed_injectStyle hcss hlt, decide_eq_false (Nat.not_lt_of_le hid), Bool.and_false]

include hsvg

/-- The stylesheet is in a drawing into which it was put. -/
theorem hasStyle_injectStyle (css : String) : (d.injectStyle svg css).hasStyle css = true := by
  cases hcss : d.hasStyle css with
  | true => rwa [injectStyle, if_pos hcss]
  | false =>
    have hlt := lt_size_of_isElement helement
    obtain ⟨hd', hextended⟩ := hd.injectStyle helement css
    have hnode := getElem?_injectStyle hcss hlt
    have hstyle : (d.injectStyle svg css).nodes[d.nodes.size]? =
        some ⟨.element ⟨"style", [], [("type", "text/css")]⟩, some svg, [d.nodes.size + 1]⟩ := by
      rw [hnode, if_neg (Nat.ne_of_lt (Nat.lt_succ_self _)), if_pos rfl]
    have htext : (d.injectStyle svg css).nodes[d.nodes.size + 1]? =
        some ⟨.text css, some d.nodes.size, []⟩ := by rw [hnode, if_pos rfl]
    refine List.any_eq_true.mpr ⟨d.nodes.size, List.mem_filter.mpr ⟨?_, ?_⟩, ?_⟩
    · exact hd'.mem_descendants_iff.mpr (exists_ancestor?_root_of_svgRoot? hd hsvg hextended
        (parent?_of_getElem? hstyle))
    · have hname : Element.localName ⟨"style", [], [("type", "text/css")]⟩ = "style" := by decide
      rw [isNamed, element?, hstyle]
      exact decide_eq_true hname
    · refine decide_eq_true ?_
      rw [hd'.textOf_eq_append, children_of_getElem? hstyle, List.map_singleton,
        hd'.textOf_eq_append, children_of_getElem? htext, textAt, hstyle, textAt, htext]
      simp [String.join_cons]

end Inserted

/-! ### The script -/

theorem attribute?_ensureNamespace (d : Drawing) (name uri : String) (id : NodeId) (key : String) :
    (d.ensureNamespace name uri).attribute? id key = d.attribute? id key := by
  rw [attribute?, ensureNamespace, element?_modifyElement, attribute?]
  split
  · rcases d.element? id with _ | e
    · rfl
    · rw [Option.map_some, Option.bind_some, Option.bind_some, Element.ensureNamespace]
      split <;> rfl
  · rfl

theorem enriched_ensureNamespace (d : Drawing) (name uri : String) :
    Enriched d (d.ensureNamespace name uri) := by
  have hextended := extended_of_skeleton_eq (skeleton_ensureNamespace d name uri)
  refine ⟨hextended, fun id _ key => attribute?_ensureNamespace d name uri id key, fun id hid => ?_⟩
  rw [isNamed_eq_any_name?, name?_eq_of_skeleton_eq (skeleton_ensureNamespace d name uri),
    ← isNamed_eq_any_name?, isNamed_eq_false_of_size_le hid]

/-- The element of a script that refers to something. -/
def scriptElement (href : String) : Element :=
  ⟨"script", [], [("xlink:href", href), ("type", "text/javascript")]⟩

/-- A drawing with a new script among the children of an element. -/
def withScript (d : Drawing) (svg : NodeId) (index : Nat) (href : String) : Drawing :=
  (d.pushNode (.element (scriptElement href)) none).1.insertChild svg index d.nodes.size

theorem injectScript_eq (d : Drawing) (svg : NodeId) (href : String) :
    d.injectScript svg href =
      if (d.ensureNamespace "xlink" xlinkUri).hasScript href then
        d.ensureNamespace "xlink" xlinkUri
      else (d.ensureNamespace "xlink" xlinkUri).withScript svg
        (((d.ensureNamespace "xlink" xlinkUri).pushNode
          (.element (scriptElement href)) none).1.children svg).length href := rfl

theorem element?_withScript (d : Drawing) (svg : NodeId) (index : Nat) (href : String)
    (id : NodeId) : (d.withScript svg index href).element? id =
      if id = d.nodes.size then some (scriptElement href) else d.element? id := by
  rw [withScript, element?_insertChild, element?_eq, getElem?_pushNode, element?_eq]
  split <;> rfl

theorem textAt_pushElement (d : Drawing) (e : Element) (id : NodeId) :
    (d.pushNode (.element e) none).1.textAt id = d.textAt id := by
  rw [textAt_eq, content?_pushNode, textAt_eq]
  by_cases hid : id = d.nodes.size
  · rw [if_pos hid, content?_eq_none (Nat.le_of_eq hid.symm)]
  · rw [if_neg hid]

section Appended

variable (hd : d.WellLinked) {svg : NodeId} (helement : d.isElement svg) (index : Nat)
  (href : String)
include hd helement

theorem wellLinked_withScript : (d.withScript svg index href).WellLinked ∧
    Attached (d.pushNode (.element (scriptElement href)) none).1 (d.withScript svg index href) svg
      d.nodes.size := by
  have hextended := extended_pushNode d (.element (scriptElement href))
  exact (hd.pushNode _).insertChild (hextended.isElement helement) (isLoose_pushNode hd _)
    (fun n => hextended.ancestor?_ne hd (lt_size_of_isElement helement) (Nat.le_refl _) n) index

theorem enriched_withScript : Enriched d (d.withScript svg index href) := by
  obtain ⟨-, hattached⟩ := wellLinked_withScript hd helement index href
  refine ⟨hattached.extended (extended_pushNode d _) (Nat.le_refl _), fun id hid key => ?_,
    fun id hid => ?_⟩
  · rw [attribute?, element?_withScript, if_neg (Nat.ne_of_lt hid), ← attribute?]
  · rw [isNamed, element?_withScript]
    split
    · exact decide_eq_false (by decide : Element.localNameOf "script" ≠ "a")
    · exact isNamed_eq_false_of_size_le hid "a"

/-- A script adds no text. -/
theorem textOf_withScript (id : NodeId) :
    (d.withScript svg index href).textOf id = d.textOf id := by
  obtain ⟨hd', hattached⟩ := wellLinked_withScript hd helement index href
  have hpushed := hd.pushNode (.element (scriptElement href))
  have hbefore : ∀ id, (d.pushNode (.element (scriptElement href)) none).1.textOf id =
      d.textOf id := by
    refine hd.textOf_eq_of_join_eq hpushed (textAt_pushElement d _) fun id => ?_
    rw [children_pushNode]
  have hscript : d.textOf d.nodes.size = "" := by
    rw [hd.textOf_eq_append, children_eq_nil_of_size_le (Nat.le_refl _), textAt_eq,
      content?_eq_none (Nat.le_refl _)]
    rfl
  have htext : ∀ id, (d.withScript svg index href).textAt id =
      (d.pushNode (.element (scriptElement href)) none).1.textAt id := by
    intro id
    rw [textAt_eq, withScript, content?_insertChild, ← textAt_eq]
  rw [hattached.textOf_eq hpushed hd' htext ((hbefore _).trans hscript), hbefore]

theorem hasScript_withScript (hsvg : svg ∈ d.descendants d.root) :
    (d.withScript svg index href).hasScript href = true := by
  obtain ⟨hd', hattached⟩ := wellLinked_withScript hd helement index href
  have hextended := (enriched_withScript hd helement index href).toExtended
  have hscript : (d.withScript svg index href).element? d.nodes.size =
      some (scriptElement href) := by
    rw [element?_withScript, if_pos rfl]
  refine List.any_eq_true.mpr ⟨d.nodes.size, List.mem_filter.mpr ⟨?_, ?_⟩, ?_⟩
  · refine hd'.mem_descendants_iff.mpr (exists_ancestor?_root_of_svgRoot? hd hsvg hextended ?_)
    rw [hattached.parent?, if_pos rfl]
  · rw [isNamed, hscript]
    exact decide_eq_true (by decide : Element.localNameOf "script" = "script")
  · refine decide_eq_true ?_
    rw [attribute?, hscript]
    rfl

end Appended

/-- Whether the outermost element declares a prefix. -/
def Declares (d : Drawing) (name : String) : Prop :=
  ∃ e ∈ d.element? d.root, Xml.Scope.binds e.declarations (some name) = true

theorem Declares.ensureNamespace_eq {name : String} (h : d.Declares name) (uri : String) :
    d.ensureNamespace name uri = d := by
  obtain ⟨e, he, hbinds⟩ := h
  refine (modifyElement_congr fun e' he' => ?_).trans (modifyElement_id d d.root)
  obtain rfl := Option.some_inj.mp (he.symm.trans he')
  rw [Element.ensureNamespace, if_pos hbinds]

theorem declares_ensureNamespace (h : d.isElement d.root) (name uri : String) :
    (d.ensureNamespace name uri).Declares name := by
  obtain ⟨e, he⟩ := Option.isSome_iff_exists.mp h
  refine ⟨e.ensureNamespace name uri, ?_, ?_⟩
  · show (d.ensureNamespace name uri).element? d.root = _
    rw [ensureNamespace, element?_modifyElement, if_pos rfl, he]
    rfl
  · unfold Element.ensureNamespace
    split
    · assumption
    · simp [Xml.Scope.binds]

/-- A script put into a drawing is there, under a prefix that is declared. -/
theorem hasScript_injectScript (hd : d.WellLinked) {svg : NodeId}
    (hsvg : svg ∈ d.descendants d.root) (helement : d.isElement svg) (href : String) :
    (d.injectScript svg href).hasScript href = true ∧
      (d.injectScript svg href).Declares "xlink" ∧
      Enriched d (d.injectScript svg href) ∧
      ∀ id, (d.injectScript svg href).textOf id = d.textOf id := by
  have hskeleton := skeleton_ensureNamespace d "xlink" xlinkUri
  have hd' := hd.of_skeleton_eq hskeleton
  have henriched := enriched_ensureNamespace d "xlink" xlinkUri
  have htext := textOf_eq_of_skeleton_eq hd hskeleton
  have hroot : d.isElement d.root := by
    obtain ⟨k, hk⟩ := hd.mem_descendants_iff.mp hsvg
    exact isElement_of_ancestor? hd.parentsAreElements helement hk
  have hdeclares := declares_ensureNamespace hroot "xlink" xlinkUri
  have helement' := henriched.isElement helement
  rw [injectScript_eq]
  split
  · rename_i hscript
    exact ⟨hscript, hdeclares, henriched, htext⟩
  · have hsvg' := henriched.grown.mem_descendants_root hd hd' hsvg
    have hmore := enriched_withScript hd' helement' (((d.ensureNamespace "xlink" xlinkUri).pushNode
          (.element (scriptElement href)) none).1.children svg).length href
    refine ⟨hasScript_withScript hd' helement' _ href hsvg', ?_, henriched.trans hmore, ?_⟩
    · obtain ⟨e, he, hbinds⟩ := hdeclares
      refine ⟨e, ?_, hbinds⟩
      have hlt := lt_size_of_isElement (Option.isSome_iff_exists.mpr ⟨e, he⟩)
      show Drawing.element? _ _ = _
      rw [hmore.grown.root, element?_withScript, if_neg (Nat.ne_of_lt hlt)]
      exact he
    · intro id
      rw [textOf_withScript hd' helement', htext]

/-! ### Prepared drawings -/

/-- A drawing that is wired and holds what is to be added to it. -/
structure IsPrepared (d : Drawing) (r : FoldRules) (s : StyleRules) (options : PrepareOptions) :
    Prop extends IsWired d r where
  styled : options.inlineStyle = true → d.hasStyle (stylesheet r s) = true
  scripted : ∀ href ∈ options.scriptHref, d.hasScript href = true ∧ d.Declares "xlink"

/-- Preparing leaves a prepared drawing as it is. -/
theorem IsPrepared.prepare_eq (h : d.IsPrepared r s options) {svg : NodeId}
    (hsvg : d.svgRoot? = some svg) : d.prepare r s options = some (d, (d.wire r).2) := by
  have hstyled : (if options.inlineStyle then d.injectStyle svg (stylesheet r s) else d) = d := by
    split
    · rename_i hinline
      rw [injectStyle, if_pos (h.styled hinline)]
    · rfl
  rw [prepare, hsvg, Option.map_some]
  simp only [h.wire_eq, hstyled]
  rcases hhref : options.scriptHref with _ | href
  · rfl
  · obtain ⟨hscript, hdeclares⟩ := h.scripted href hhref
    simp only []
    rw [injectScript, hdeclares.ensureNamespace_eq, if_pos hscript]

/-- A drawing into which text was put nowhere else has the styles that it had. -/
theorem Enriched.hasStyle (h : Enriched d d') (hd : d.WellLinked) (hd' : d'.WellLinked)
    (htext : ∀ id, d'.textOf id = d.textOf id) {css : String} (hcss : d.hasStyle css = true) :
    d'.hasStyle css = true := by
  obtain ⟨style, hstyle, hsame⟩ := List.any_eq_true.mp hcss
  have hlt := lt_size_of_isElement (isElement_of_isNamed (List.mem_filter.mp hstyle).2)
  refine List.any_eq_true.mpr ⟨style, (h.mem_elementsNamed_iff hd hd' hlt "style").mpr hstyle, ?_⟩
  rwa [htext]

/-- What preparing does: wiring, the stylesheet, the script. -/
theorem exists_eq_of_prepare {w : Wiring} (h : d.prepare r s options = some (d', w)) :
    ∃ svg styled, d.svgRoot? = some svg ∧
      styled = (if options.inlineStyle then (d.wire r).1.injectStyle svg (stylesheet r s)
        else (d.wire r).1) ∧
      d' = match options.scriptHref with
        | some href => styled.injectScript svg href
        | none => styled := by
  obtain ⟨svg, hsvg, heq⟩ := Option.map_eq_some_iff.mp h
  exact ⟨svg, _, hsvg, rfl, (Prod.mk.inj heq).1.symm⟩

/-- A prepared drawing is one that preparing leaves as it is. -/
theorem isPrepared_prepare (hword : IsWord r.hiddenClass) (hcluster : r.clusterAttribute ≠ "class")
    (hhref : "class" ∉ r.hrefAttributes) (hd : d.WellLinked) {w : Wiring}
    (h : d.prepare r s options = some (d', w)) : d'.IsPrepared r s options := by
  obtain ⟨svg, styled, hsvg, hstyled, hd'⟩ := exists_eq_of_prepare h
  have hnamed : d.isNamed "svg" svg = true := (List.find?_eq_some_iff_append.mp hsvg).1
  obtain ⟨hwell, hextended⟩ := hd.wire r
  have hwired := isWired_wire hword hcluster hhref hd.parentsAreElements
  have helement := hextended.isElement (isElement_of_isNamed hnamed)
  have hbelow := hextended.grown.mem_descendants_root hd hwell (List.mem_of_find?_eq_some hsvg)
  -- The stylesheet, if there is to be one, leaves the drawing wired.
  obtain ⟨hwell', hwired', hmore, hstyle⟩ : styled.WellLinked ∧ styled.IsWired r ∧
      Extended (d.wire r).1 styled ∧
      (options.inlineStyle = true → styled.hasStyle (stylesheet r s) = true) := by
    rw [hstyled]
    split
    · have henriched := enriched_injectStyle hwell helement (stylesheet r s)
      obtain ⟨hlinked, hmore⟩ := hwell.injectStyle helement (stylesheet r s)
      exact ⟨hlinked, henriched.isWired hwell hlinked hwired, hmore,
        fun _ => hasStyle_injectStyle hwell hbelow helement _⟩
    · rename_i hinline
      exact ⟨hwell, hwired, .refl _, fun h => absurd h hinline⟩
  rcases hscript : options.scriptHref with _ | href
  · rw [hscript] at hd'
    exact hd' ▸ ⟨hwired', hstyle, by simp [hscript]⟩
  · rw [hscript] at hd'
    have helement' := hmore.isElement helement
    have hbelow' := hmore.grown.mem_descendants_root hwell hwell' hbelow
    obtain ⟨hlinked, -⟩ := hwell'.injectScript helement' href
    obtain ⟨hhas, hdeclares, henriched, htext⟩ :=
      hasScript_injectScript hwell' hbelow' helement' href
    obtain rfl : d' = styled.injectScript svg href := hd'
    refine ⟨henriched.isWired hwell' hlinked hwired', fun hinline => ?_, ?_⟩
    · exact henriched.hasStyle hwell' hlinked htext (hstyle hinline)
    · intro href' hhref'
      obtain rfl := Option.some_inj.mp (hscript.symm.trans hhref')
      exact ⟨hhas, hdeclares⟩

end GraphFolding.Drawing
