/-
Tables whose nodes can be taken apart once they have been written.

Preparing adds nodes and attributes.  An attribute may be given any name by the rules, but all the
rest of a prepared drawing can be taken apart again if the drawing was read:

* `NodeContent.Tidy`, `Drawing.Tidy` — what a node holds is taken apart into what it was
  written from, attributes aside;
* `tidy_ofString` — a drawing that was read is tidy;
* `Drawing.Tidy.prepare` — so it is once it has been prepared;
* `Drawing.Tidy.legible` — with attributes whose names are names, it is legible.
-/
import GraphFolding.Proofs.PreparedDrawings
import GraphFolding.Proofs.SettledNames
namespace GraphFolding

open Xml

namespace NodeContent

/-- What is taken apart into what it was written from, attributes aside. -/
def Tidy : NodeContent → Prop
  | element e => IsQName e.name ∧ ∀ b ∈ e.declarations, b.Sound
  | text _ => True
  | comment value => Markup.CommentWellFormed value
  | instruction target value => Markup.InstructionLegible target value

/-- Whether it is a comment or an instruction. -/
def isAside : NodeContent → Bool
  | comment _ => true
  | instruction .. => true
  | _ => false

/-- What is held, with a change to it if it is an element. -/
def mapElement (change : Element → Element) : NodeContent → NodeContent
  | element e => element (change e)
  | content => content

theorem tidy_mapElement_bare {content : NodeContent} :
    (content.mapElement Element.bare).Tidy ↔ content.Tidy := by
  cases content <;> exact Iff.rfl

theorem isAside_mapElement (change : Element → Element) (content : NodeContent) :
    (content.mapElement change).isAside = content.isAside := by
  cases content <;> rfl

end NodeContent

/-- A table of nodes that are taken apart into what they were written from, attributes aside. -/
def AllTidy (nodes : Array Node) : Prop :=
  ∀ (id : NodeId) (node : Node), nodes[id]? = some node → node.content.Tidy

theorem AllTidy.push {nodes : Array Node} (hn : AllTidy nodes) {content : NodeContent}
    (hcontent : content.Tidy) (parent : Option NodeId) :
    AllTidy (nodes.push ⟨content, parent, []⟩) := by
  intro id node hnode
  rw [Array.getElem?_push] at hnode
  split at hnode
  · exact Option.some_inj.mp hnode ▸ hcontent
  · exact hn id node hnode

namespace Drawing

mutual

theorem allTidy_graft : ∀ (x : Xml.Node) {inherited : Scope} (parent : Option NodeId)
    {nodes : Array Node}, AllTidy nodes → x.Sound inherited →
    AllTidy (graft inherited parent nodes x).1
  | .element tag children, inherited, parent, nodes, hn, hx => by
    have helement : (NodeContent.element (.ofTag inherited tag)).Tidy := by
      refine ⟨(Element.ofTag_legible hx.1).name, fun b hb => ?_⟩
      exact hx.1.coherent.sound b ((Element.mem_declarations_ofTag hx.1).mp hb).1
    have hall := allTidy_graftAll children nodes.size (hn.push helement parent) hx.2
    rcases hout : graftAll tag.scope nodes.size
      (nodes.push ⟨.element (.ofTag inherited tag), parent, []⟩) children with ⟨out, ids⟩
    rw [hout] at hall
    rw [graft_element inherited parent nodes tag children hout]
    intro id node hnode
    rw [Array.getElem?_modify] at hnode
    split at hnode
    · obtain ⟨old, hold, rfl⟩ := Option.map_eq_some_iff.mp hnode
      exact hall id old hold
    · exact hall id node hnode
  | .text value, _, parent, _, hn, _ => by
    have htext : (NodeContent.text value).Tidy := trivial
    exact hn.push htext parent
  | .comment value, _, parent, _, hn, hx => by
    have hcomment : (NodeContent.comment value).Tidy := hx
    exact hn.push hcomment parent
  | .instruction target value, _, parent, _, hn, hx => by
    have hinstruction : (NodeContent.instruction target value).Tidy := hx
    exact hn.push hinstruction parent

/-- As `allTidy_graft`, for several nodes. -/
theorem allTidy_graftAll : ∀ (xs : List Xml.Node) {inherited : Scope} (parent : NodeId)
    {nodes : Array Node}, AllTidy nodes → AllSound inherited xs →
    AllTidy (graftAll inherited parent nodes xs).1
  | [], _, _, _, hn, _ => hn
  | x :: xs, inherited, parent, nodes, hn, hxs => by
    have hfirst := allTidy_graft x (some parent) hn hxs.1
    rcases hout : graft inherited (some parent) nodes x with ⟨out, id⟩
    rw [hout] at hfirst
    have hmore := allTidy_graftAll xs parent hfirst hxs.2
    rcases hout' : graftAll inherited parent out xs with ⟨out', ids⟩
    rw [hout'] at hmore
    rwa [graftAll_cons inherited parent nodes x xs hout hout']

end

theorem allTidy_outline_add {o : Outline} (ho : AllTidy o.nodes) {x : Xml.Node}
    (hx : x.Sound []) : AllTidy (o.add x).nodes := by
  rcases nodes_outline_add o x with ⟨-, hsame⟩ | hgraft
  · rwa [hsame]
  · rw [hgraft]
    exact allTidy_graft x none ho hx

theorem allTidy_foldl_add {xs : List Xml.Node} : ∀ {o : Outline}, AllTidy o.nodes →
    (∀ x ∈ xs, x.Sound []) → AllTidy (xs.foldl Outline.add o).nodes := by
  induction xs with
  | nil => exact fun ho _ => ho
  | cons x xs ih =>
    intro o ho hxs
    exact ih (allTidy_outline_add ho (hxs x List.mem_cons_self)) fun y hy =>
      hxs y (List.mem_cons_of_mem x hy)

theorem allTidy_ofDocument {xs : List Xml.Node} {d : Drawing} (hxs : ∀ x ∈ xs, x.Sound [])
    (h : ofDocument xs = .ok d) : AllTidy d.nodes := by
  have hempty : AllTidy #[] := by
    intro id node hnode
    simp at hnode
  obtain ⟨root, -, rfl⟩ := outline_ofDocument h
  exact allTidy_foldl_add hempty hxs

/-! ### Drawings -/

/-- A drawing whose nodes are taken apart into what they were written from, attributes aside, with
only comments and instructions around the outermost element. -/
structure Tidy (d : Drawing) : Prop where
  contents : ∀ {id content}, d.content? id = some content → content.Tidy
  asides : ∀ id ∈ d.prologue ++ d.epilogue, ∀ content ∈ d.content? id, content.isAside = true

end Drawing

theorem HoldsAll.exists_markup_of_mem {nodes : Array Node} {parent : Option NodeId} : ∀ {ms : List Markup}
    {ids : List NodeId}, HoldsAll nodes parent ids ms → ∀ id ∈ ids,
    ∃ m ∈ ms, Holds nodes parent id m := by
  intro ms
  induction ms with
  | nil =>
    intro ids h
    rw [HoldsAll] at h
    simp [h]
  | cons m ms ih =>
    intro ids h id hid
    obtain ⟨first, rest, rfl, hm, hms⟩ := h
    rcases List.mem_cons.mp hid with rfl | hid
    · exact ⟨m, List.mem_cons_self, hm⟩
    · obtain ⟨m', hm', hholds⟩ := ih hms id hid
      exact ⟨m', List.mem_cons_of_mem m hm', hholds⟩

theorem HoldsAll.exists_place_of_mem {nodes : Array Node} {parent : Option NodeId} :
    ∀ {ms : List Markup} {ids : List NodeId}, HoldsAll nodes parent ids ms → ∀ m ∈ ms,
    ∃ id ∈ ids, Holds nodes parent id m := by
  intro ms
  induction ms with
  | nil => simp
  | cons m ms ih =>
    intro ids h x hx
    obtain ⟨first, rest, rfl, hm, hms⟩ := h
    rcases List.mem_cons.mp hx with rfl | hx
    · exact ⟨first, List.mem_cons_self, hm⟩
    · obtain ⟨id, hid, hholds⟩ := ih hms x hx
      exact ⟨id, List.mem_cons_of_mem first hid, hholds⟩

namespace Drawing

theorem content?_of_holds {d : Drawing} {parent : Option NodeId} {id : NodeId} {m : Markup}
    (h : GraphFolding.Holds d.nodes parent id m) : d.content? id = some m.content := by
  obtain ⟨ids, hnode, -⟩ := h.node
  rw [content?, hnode]
  rfl

/-- A drawing that was read is tidy. -/
theorem tidy_ofString {text : String} {d : Drawing} (h : ofString text = .ok d) :
    d.Tidy := by
  have hcontents : AllTidy d.nodes := by
    unfold ofString at h
    split at h
    · rename_i nodes hread
      exact allTidy_ofDocument (readDocument_ensures text nodes hread) h
    · simp at h
  obtain ⟨doc, hdoc, hlegible⟩ := exists_legible h
  constructor
  · intro id content hcontent
    obtain ⟨node, hnode, rfl⟩ := Option.map_eq_some_iff.mp hcontent
    exact hcontents id node hnode
  · intro id hid content hcontent
    have haside : ∃ m, GraphFolding.Holds d.nodes none id m ∧ m.isAside = true := by
      rcases List.mem_append.mp hid with hid | hid
      · obtain ⟨m, hm, hholds⟩ := hdoc.prologue.exists_markup_of_mem id hid
        exact ⟨m, hholds, (hlegible.prologue m hm).1⟩
      · obtain ⟨m, hm, hholds⟩ := hdoc.epilogue.exists_markup_of_mem id hid
        exact ⟨m, hholds, (hlegible.epilogue m hm).1⟩
    obtain ⟨m, hholds, haside⟩ := haside
    obtain rfl := Option.some_inj.mp ((content?_of_holds hholds).symm.trans hcontent)
    cases m <;> first | rfl | simp [Markup.isAside] at haside

/-! ### Prepared drawings -/

theorem content_mapElement (change : Element → Element) (node : Node) :
    (node.mapElement change).content = node.content.mapElement change := by
  obtain ⟨content, parent, children⟩ := node
  cases content <;> rfl

variable {d d' : Drawing}

theorem content?_bare (d : Drawing) (id : NodeId) :
    d.bare.content? id = (d.content? id).map (·.mapElement Element.bare) := by
  rw [content?, bare, getElem?_mapElements, content?, Option.map_map, Option.map_map]
  exact congrArg (d.nodes[id]?.map ·) (funext (content_mapElement Element.bare))

theorem content?_modifyElement (d : Drawing) (id i : NodeId) (change : Element → Element) :
    (d.modifyElement id change).content? i =
      if id = i then (d.content? i).map (·.mapElement change) else d.content? i := by
  rw [content?, getElem?_modifyElement, content?]
  split
  · rw [Option.map_map, Option.map_map]
    exact congrArg (d.nodes[i]?.map ·) (funext (content_mapElement change))
  · rfl

/-- What the nodes of a drawing with a stylesheet hold. -/
theorem content?_injectStyle {css : String} (hcss : d.hasStyle css = false) {svg : NodeId}
    (hsvg : svg < d.nodes.size) (id : NodeId) : (d.injectStyle svg css).content? id =
      if id = d.nodes.size + 1 then some (.text css)
      else if id = d.nodes.size then some (.element ⟨"style", [], [("type", "text/css")]⟩)
      else d.content? id := by
  rw [content?, getElem?_injectStyle hcss hsvg]
  split
  · rfl
  · split
    · rfl
    · split
      · rw [Option.map_map]
        rfl
      · rfl

namespace Tidy

variable (hd : d.Tidy)
include hd

/-- Attributes make no difference. -/
theorem of_bare_eq (h : d'.bare = d.bare) : d'.Tidy := by
  have hback : ∀ {id content}, d'.content? id = some content → ∃ old, d.content? id = some old ∧
      old.mapElement Element.bare = content.mapElement Element.bare := by
    intro id content hcontent
    have hbare := content?_bare d' id
    rw [h, content?_bare, hcontent] at hbare
    exact Option.map_eq_some_iff.mp hbare
  constructor
  · intro id content hcontent
    obtain ⟨old, hold, hsame⟩ := hback hcontent
    rw [← NodeContent.tidy_mapElement_bare, ← hsame, NodeContent.tidy_mapElement_bare]
    exact hd.contents hold
  · intro id hid content hcontent
    obtain ⟨old, hold, hsame⟩ := hback hcontent
    have houter : d'.prologue ++ d'.epilogue = d.prologue ++ d.epilogue := by
      show d'.bare.prologue ++ d'.bare.epilogue = d.bare.prologue ++ d.bare.epilogue
      rw [h]
    rw [← NodeContent.isAside_mapElement Element.bare, ← hsame, NodeContent.isAside_mapElement]
    exact hd.asides id (houter ▸ hid) old hold

/-- What is tidy may be put into a tidy drawing. -/
theorem of_extended (hwell : d.WellLinked) (h : Extended d d')
    (hold : ∀ id < d.nodes.size, d'.content? id = d.content? id)
    (hnew : ∀ {id content}, d.nodes.size ≤ id → d'.content? id = some content →
      content.Tidy) : d'.Tidy := by
  constructor
  · intro id content hcontent
    by_cases hid : id < d.nodes.size
    · exact hd.contents ((hold id hid).symm.trans hcontent)
    · exact hnew (Nat.le_of_not_lt hid) hcontent
  · intro id hid content hcontent
    have houter := (List.cons.inj h.outermost).2
    rw [houter] at hid
    have hlt := (hwell.outermost id (List.mem_cons_of_mem d.root hid)).1
    exact hd.asides id hid content ((hold id hlt).symm.trans hcontent)

theorem ensureNamespace {name uri : String} (hsound : Binding.Sound ⟨some name, uri⟩) :
    (d.ensureNamespace name uri).Tidy := by
  have helement : ∀ content : NodeContent, content.Tidy →
      (content.mapElement (·.ensureNamespace name uri)).Tidy := by
    intro content hcontent
    cases content with
    | element e =>
      rw [NodeContent.mapElement, Element.ensureNamespace]
      split
      · exact hcontent
      · refine ⟨hcontent.1, fun b hb => ?_⟩
        rcases List.mem_append.mp hb with hb | hb
        · exact hcontent.2 b hb
        · exact List.mem_singleton.mp hb ▸ hsound
    | _ => exact hcontent
  constructor
  · intro id content hcontent
    rw [Drawing.ensureNamespace, content?_modifyElement] at hcontent
    split at hcontent
    · obtain ⟨old, hold, rfl⟩ := Option.map_eq_some_iff.mp hcontent
      exact helement old (hd.contents hold)
    · exact hd.contents hcontent
  · intro id hid content hcontent
    rw [Drawing.ensureNamespace, content?_modifyElement] at hcontent
    split at hcontent
    · obtain ⟨old, hold, rfl⟩ := Option.map_eq_some_iff.mp hcontent
      rw [NodeContent.isAside_mapElement]
      exact hd.asides id hid old hold
    · exact hd.asides id hid content hcontent

theorem injectStyle (hwell : d.WellLinked) {svg : NodeId} (hsvg : d.isElement svg) (css : String) :
    (d.injectStyle svg css).Tidy := by
  cases hcss : d.hasStyle css with
  | true => rwa [Drawing.injectStyle, if_pos hcss]
  | false =>
    have hnode := content?_injectStyle hcss (lt_size_of_isElement hsvg)
    refine hd.of_extended hwell (hwell.injectStyle hsvg css).2 (fun id hid => ?_)
      fun {id content} hid hcontent => ?_
    · rw [hnode, if_neg (Nat.ne_of_lt (Nat.lt_succ_of_lt hid)), if_neg (Nat.ne_of_lt hid)]
    · rw [hnode] at hcontent
      split at hcontent
      · obtain rfl := Option.some_inj.mp hcontent
        trivial
      · split at hcontent
        · obtain rfl := Option.some_inj.mp hcontent
          exact ⟨(by decide : IsQName "style"), by simp⟩
        · rw [content?_eq_none hid] at hcontent
          simp at hcontent

theorem withScript (hwell : d.WellLinked) {svg : NodeId} (hsvg : d.isElement svg) (index : Nat)
    (href : String) : (d.withScript svg index href).Tidy := by
  have hcontent : ∀ id, (d.withScript svg index href).content? id =
      if id = d.nodes.size then some (.element (scriptElement href)) else d.content? id := by
    intro id
    rw [Drawing.withScript, content?_insertChild, content?_pushNode]
  refine hd.of_extended hwell (enriched_withScript hwell hsvg index href).toExtended
    (fun id hid => ?_) fun {id content} hid h => ?_
  · rw [hcontent, if_neg (Nat.ne_of_lt hid)]
  · rw [hcontent] at h
    split at h
    · obtain rfl := Option.some_inj.mp h
      exact ⟨(by decide : IsQName "script"), by simp [scriptElement]⟩
    · rw [content?_eq_none hid] at h
      simp at h

theorem injectScript (hwell : d.WellLinked) {svg : NodeId} (hsvg : d.isElement svg)
    (href : String) : (d.injectScript svg href).Tidy := by
  have hsound : Binding.Sound ⟨some "xlink", xlinkUri⟩ :=
    ⟨fun p hp => Option.some_inj.mp hp ▸ (by decide : IsNamePart "xlink"), by decide, by decide,
      by decide⟩
  have hdeclared := hd.ensureNamespace hsound
  have hskeleton := skeleton_ensureNamespace d "xlink" xlinkUri
  rw [injectScript_eq]
  split
  · exact hdeclared
  · exact hdeclared.withScript (hwell.of_skeleton_eq hskeleton)
      ((extended_of_skeleton_eq hskeleton).isElement hsvg) _ href

/-- A prepared drawing is tidy if the drawing was. -/
theorem prepare (hwell : d.WellLinked) {r : FoldRules} {s : StyleRules} {options : PrepareOptions}
    {w : Wiring} (h : d.prepare r s options = some (d', w)) : d'.Tidy := by
  obtain ⟨svg, styled, hsvg, hstyled, hd'⟩ := exists_eq_of_prepare h
  obtain ⟨hwired, hextended⟩ := hwell.wire r
  have helement := hextended.isElement
    (isElement_of_isNamed (List.find?_eq_some_iff_append.mp hsvg).1)
  have hwire := hd.of_bare_eq (bare_wire d r)
  obtain ⟨htidy, hlinked, hmore⟩ : styled.Tidy ∧ styled.WellLinked ∧
      Extended (d.wire r).1 styled := by
    rw [hstyled]
    split
    · exact ⟨hwire.injectStyle hwired helement _, hwired.injectStyle helement _⟩
    · exact ⟨hwire, hwired, .refl _⟩
  rw [hd']
  split
  · exact htidy.injectScript hlinked (hmore.isElement helement) _
  · exact htidy

end Tidy

mutual

/-- What a tidy drawing holds is legible if its attributes are settled. -/
theorem legible_of_holds (hd : d.Tidy) {keys : List String} : ∀ (m : Markup)
    {parent : Option NodeId} {id : NodeId} {inherited : Scope},
    GraphFolding.Holds d.nodes parent id m → m.Settled keys inherited → m.Legible
  | .element e children, parent, id, inherited, h, hsettled => by
    obtain ⟨hname, hsound⟩ := hd.contents (content?_of_holds h)
    obtain ⟨ids, -, hall⟩ := h
    refine ⟨⟨hname, fun a ha => (hsettled.1 a ha).1, fun b hb => (hsound b hb).isNamePart⟩, ?_⟩
    exact allLegible_of_holdsAll hd children hall hsettled.2
  | .text _, _, _, _, _, _ => trivial
  | .comment _, _, _, _, h, _ => hd.contents (content?_of_holds h)
  | .instruction .., _, _, _, h, _ => hd.contents (content?_of_holds h)

/-- As `legible_of_holds`, for several of them. -/
theorem allLegible_of_holdsAll (hd : d.Tidy) {keys : List String} : ∀ (ms : List Markup)
    {parent : Option NodeId} {ids : List NodeId} {inherited : Scope},
    HoldsAll d.nodes parent ids ms → Markup.AllSettled keys inherited ms → Markup.AllLegible ms
  | [], _, _, _, _, _ => trivial
  | m :: ms, _, _, _, h, hsettled => by
    obtain ⟨id, rest, rfl, hm, hms⟩ := h
    exact ⟨legible_of_holds hd m hm hsettled.1, allLegible_of_holdsAll hd ms hms hsettled.2⟩

end

/-- The document that a tidy drawing holds is legible if its attributes are settled. -/
theorem Tidy.legible (hd : d.Tidy) (hroot : d.isElement d.root) {keys : List String}
    {doc : Markup.Document} (h : d.Holds doc) (hsettled : doc.root.Settled keys []) :
    doc.Legible := by
  have hasides : ∀ {ids : List NodeId} {ms : List Markup}, HoldsAll d.nodes none ids ms →
      (∀ id ∈ ids, id ∈ d.prologue ++ d.epilogue) → ∀ m ∈ ms, m.isAside = true ∧ m.Legible := by
    intro ids ms hms hids m hm
    obtain ⟨id, hid, hholds⟩ := hms.exists_place_of_mem m hm
    have hcontent := content?_of_holds hholds
    have haside := hd.asides id (hids id hid) m.content hcontent
    have htidy := hd.contents hcontent
    cases m with
    | element e children => simp [Markup.content, NodeContent.isAside] at haside
    | text value => simp [Markup.content, NodeContent.isAside] at haside
    | comment value => exact ⟨rfl, htidy⟩
    | instruction target value => exact ⟨rfl, htidy⟩
  refine ⟨hasides h.prologue fun id hid => List.mem_append_left _ hid,
    hasides h.epilogue fun id hid => List.mem_append_right _ hid, ?_,
    legible_of_holds hd doc.root h.root hsettled⟩
  obtain ⟨e, he⟩ := Option.isSome_iff_exists.mp hroot
  obtain ⟨ids, hnode, -⟩ := h.root.node
  rw [element?, hnode] at he
  cases hm : doc.root with
  | element e children => rfl
  | _ => simp [hm, Markup.content] at he

end Drawing
end GraphFolding
