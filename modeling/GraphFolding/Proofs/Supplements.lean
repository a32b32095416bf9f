/-
What preparing adds to a drawing, entry by entry of its table.

A wired drawing gets at most a style with its text and a script, as new entries at the end of the
table, and the prefix of links on its outermost element; whatever was there keeps its place.  So
the links, and all that wiring knows of them, stay what they were:

* `Supplement` — what there is to add;
* `Drawing.supplement`, `Drawing.missing` — a drawing with a supplement, and the one that it needs;
* `filter_elementsNamed` — walks meet the old elements in their old order;
* `Enriched.wiring_eq` — the wiring of a drawing to which no link was added;
* `prepare_of_ofString` — preparing yields the wired drawing with its supplement, and yields it
  again when it is prepared a second time;
* `not_forall_prepare_eq_some` — a drawing whose `svg` element is not below its root is not
  prepared.
-/
import GraphFolding.Proofs.Clickable
import GraphFolding.Proofs.PreparedDrawings
namespace GraphFolding

open ClassList (IsWord)

/-- What is added to an element of a drawing: the text of a style, the reference of a script, and
the prefix that references of scripts have. -/
structure Supplement where
  style : Option String := none
  script : Option String := none
  linkPrefix : Bool := false
  deriving DecidableEq, Repr

@[simp] theorem Element.name_ensureNamespace (e : Element) (name uri : String) :
    (e.ensureNamespace name uri).name = e.name := by
  unfold Element.ensureNamespace
  split <;> rfl

@[simp] theorem Element.attribute?_ensureNamespace (e : Element) (name uri key : String) :
    (e.ensureNamespace name uri).attribute? key = e.attribute? key := by
  unfold Element.ensureNamespace
  split <;> rfl

namespace Supplement

variable (x : Supplement)

/-- The style and its text, as the entries of a table from a place on. -/
def styleNodes (svg start : NodeId) : List Node :=
  x.style.toList.flatMap fun css =>
    [⟨.element ⟨"style", [], [("type", "text/css")]⟩, some svg, [start + 1]⟩,
      ⟨.text css, some start, []⟩]

/-- The script, as an entry of a table. -/
def scriptNodes (svg : NodeId) : List Node :=
  x.script.toList.map fun href => ⟨.element (Drawing.scriptElement href), some svg, []⟩

/-- The style as the first child and the script as the last one. -/
def around (start : NodeId) (children : List NodeId) : List NodeId :=
  x.style.toList.map (fun _ => start) ++ children ++
    x.script.toList.map (fun _ => start + 2 * x.style.toList.length)

/-- An old entry: the element that is added to gets its new children, and the outermost one the
declaration of the prefix. -/
def adjust (root svg start id : NodeId) (node : Node) : Node where
  content :=
    if x.linkPrefix && id = root then
      (node.mapElement (·.ensureNamespace "xlink" Drawing.xlinkUri)).content
    else node.content
  parent := node.parent
  children := if id = svg then x.around start node.children else node.children

theorem length_styleNodes (svg start : NodeId) :
    (x.styleNodes svg start).length = 2 * x.style.toList.length := by
  rcases h : x.style with _ | css <;> simp [styleNodes, h]

/-- New entries are not adjusted. -/
theorem adjust_of_ne {root svg start id : NodeId} (hsvg : id ≠ svg) (hroot : id ≠ root)
    (node : Node) : x.adjust root svg start id node = node := by
  simp [adjust, hsvg, hroot]

/-- Entries adjusted for a style first and for the rest then. -/
theorem adjust_adjust (root svg start id : NodeId) (style script : Option String)
    (linkPrefix : Bool) (node : Node) :
    adjust { script, linkPrefix } root svg (start + 2 * style.toList.length) id
        (adjust { style } root svg start id node) =
      adjust { style, script, linkPrefix } root svg start id node := by
  obtain ⟨content, parent, children⟩ := node
  have hchildren : around { script, linkPrefix } (start + 2 * style.toList.length)
      (around { style } start children) = around { style, script, linkPrefix } start children := by
    simp [around]
  by_cases hsvg : id = svg
  · simp only [adjust, if_pos hsvg, hchildren]
    cases content <;> simp [Node.mapElement]
  · simp only [adjust, if_neg hsvg]
    cases content <;> simp [Node.mapElement]

/-- An entry adjusted for a script: it may be the outermost element, and it may get a child. -/
theorem adjust_script (root svg start id : NodeId) (script : Option String) (node : Node) :
    adjust { script, linkPrefix := true } root svg start id node =
      if root = id then
        ({ node with children :=
            if id = svg then node.children ++ script.toList.map (fun _ => start)
            else node.children } : Node).mapElement (·.ensureNamespace "xlink" Drawing.xlinkUri)
      else { node with children :=
          if id = svg then node.children ++ script.toList.map (fun _ => start)
          else node.children } := by
  obtain ⟨content, parent, children⟩ := node
  by_cases hroot : id = root
  · cases content <;> simp [adjust, around, hroot, Node.mapElement]
  · simp [adjust, around, hroot, Ne.symm hroot]

end Supplement

namespace Drawing

variable {d d' : Drawing} {r : FoldRules} {s : StyleRules} {options : PrepareOptions}

/-- A drawing with a supplement in one of its elements. -/
def supplement (d : Drawing) (svg : NodeId) (x : Supplement) : Drawing :=
  { d with nodes := d.nodes.mapIdx (x.adjust d.root svg d.nodes.size) ++
      (x.styleNodes svg d.nodes.size ++ x.scriptNodes svg).toArray }

/-- The supplement that a drawing needs: the stylesheet if it is asked for and no style has this
text, the script if it is asked for and no script has this reference. -/
def missing (d : Drawing) (r : FoldRules) (s : StyleRules) (options : PrepareOptions) :
    Supplement where
  style := if options.inlineStyle && !d.hasStyle (stylesheet r s) then some (stylesheet r s) else none
  script := options.scriptHref.filter fun href => !d.hasScript href
  linkPrefix := options.scriptHref.isSome

/-! ### Entries of a supplemented table -/

theorem getElem?_supplement (d : Drawing) (svg : NodeId) (x : Supplement) (id : NodeId) :
    (d.supplement svg x).nodes[id]? =
      if id < d.nodes.size then d.nodes[id]?.map (x.adjust d.root svg d.nodes.size id)
      else (x.styleNodes svg d.nodes.size ++ x.scriptNodes svg)[id - d.nodes.size]? := by
  rw [supplement]
  simp only [Array.getElem?_append, Array.size_mapIdx, Array.getElem?_mapIdx,
    List.getElem?_toArray]

theorem supplement_nothing (d : Drawing) (svg : NodeId) : d.supplement svg {} = d := by
  refine eq_of_getElem?_eq (fun id => ?_) rfl rfl rfl
  rw [getElem?_supplement]
  split
  · rcases d.nodes[id]? with _ | node
    · rfl
    · simp [Supplement.adjust, Supplement.around]
  · rename_i h
    rw [Array.getElem?_eq_none (Nat.le_of_not_lt h)]
    rfl

theorem size_supplement (d : Drawing) (svg : NodeId) (x : Supplement) :
    (d.supplement svg x).nodes.size =
      d.nodes.size + (x.styleNodes svg d.nodes.size).length + (x.scriptNodes svg).length := by
  rw [supplement]
  simp only [Array.size_append, Array.size_mapIdx, List.size_toArray, List.length_append,
    Nat.add_assoc]

theorem injectStyle_eq_supplement {css : String} (hcss : d.hasStyle css = false) {svg : NodeId}
    (hsvg : svg < d.nodes.size) :
    d.injectStyle svg css = d.supplement svg { style := some css } := by
  have hadjust : ∀ id, Supplement.adjust { style := some css } d.root svg d.nodes.size id =
      if id = svg then fun node => { node with children := d.nodes.size :: node.children }
      else fun node => node := by
    intro id
    funext node
    by_cases h : id = svg <;> simp [Supplement.adjust, Supplement.around, h]
  refine eq_of_getElem?_eq (fun id => ?_) (root_injectStyle hcss) ?_ ?_
  · rw [getElem?_injectStyle hcss hsvg, getElem?_supplement, hadjust]
    rcases Nat.lt_or_ge id d.nodes.size with hid | hid
    · rw [if_neg (Nat.ne_of_lt (Nat.lt_succ_of_lt hid)), if_neg (Nat.ne_of_lt hid), if_pos hid]
      split
      · rfl
      · exact Option.map_id'.symm
    · rw [if_neg (Nat.not_lt_of_le hid)]
      obtain ⟨k, rfl⟩ := Nat.exists_eq_add_of_le hid
      rw [Nat.add_sub_cancel_left]
      rcases k with _ | _ | k
      · simp [Supplement.styleNodes]
      · simp [Supplement.styleNodes]
      · have hne : d.nodes.size + (k + 2) ≠ svg :=
          Nat.ne_of_gt (Nat.lt_of_lt_of_le hsvg (Nat.le_add_right _ _))
        simp [Supplement.styleNodes, Supplement.scriptNodes, hne]
  · rw [injectStyle, if_neg (by simp [hcss])]
    rfl
  · rw [injectStyle, if_neg (by simp [hcss])]
    rfl

theorem getElem?_withScript {svg : NodeId} (hsvg : svg < d.nodes.size) (index : Nat)
    (href : String) (id : NodeId) : (d.withScript svg index href).nodes[id]? =
      if id = d.nodes.size then some ⟨.element (scriptElement href), some svg, []⟩
      else if id = svg then d.nodes[id]?.map fun node =>
        { node with
          children := node.children.take index ++ d.nodes.size :: node.children.drop index }
      else d.nodes[id]? := by
  have hne : svg ≠ d.nodes.size := Nat.ne_of_lt hsvg
  rw [withScript, insertChild, modifyChildren, getElem?_modifyNode, getElem?_modifyNode,
    getElem?_pushNode]
  by_cases h₁ : id = d.nodes.size
  · subst h₁
    simp [hne]
  · simp [h₁, Ne.symm h₁, eq_comm]

theorem getElem?_ensureNamespace (d : Drawing) (name uri : String) (id : NodeId) :
    (d.ensureNamespace name uri).nodes[id]? =
      if d.root = id then d.nodes[id]?.map (·.mapElement (·.ensureNamespace name uri))
      else d.nodes[id]? :=
  getElem?_modifyElement d d.root id _

/-- Declaring the prefix is a supplement with no new entries. -/
theorem ensureNamespace_eq_supplement (d : Drawing) (svg : NodeId) :
    d.ensureNamespace "xlink" xlinkUri = d.supplement svg { linkPrefix := true } := by
  refine eq_of_getElem?_eq (fun id => ?_) rfl rfl rfl
  rw [getElem?_ensureNamespace, getElem?_supplement, funext (Supplement.adjust_script _ _ _ _ _)]
  rcases Nat.lt_or_ge id d.nodes.size with hid | hid
  · rw [if_pos hid]
    by_cases hroot : d.root = id <;> simp [hroot]
  · rw [if_neg (Nat.not_lt_of_le hid), Array.getElem?_eq_none hid]
    simp [Supplement.styleNodes, Supplement.scriptNodes]

/-- A script as the last child, with the prefix that it needs. -/
theorem withScript_ensureNamespace {svg : NodeId} (hsvg : svg < d.nodes.size) (href : String) :
    (d.ensureNamespace "xlink" xlinkUri).withScript svg (d.children svg).length href =
      d.supplement svg { script := some href, linkPrefix := true } := by
  have hsize : (d.ensureNamespace "xlink" xlinkUri).nodes.size = d.nodes.size := Array.size_modify
  refine eq_of_getElem?_eq (fun id => ?_) rfl rfl rfl
  rw [getElem?_withScript (hsize.symm ▸ hsvg), getElem?_ensureNamespace, getElem?_supplement, hsize,
    funext (Supplement.adjust_script _ _ _ _ _)]
  rcases Nat.lt_or_ge id d.nodes.size with hid | hid
  · rw [if_pos hid, if_neg (Nat.ne_of_lt hid)]
    by_cases hsvg : id = svg
    · subst hsvg
      obtain ⟨node, hnode⟩ : ∃ node, d.nodes[id]? = some node :=
        ⟨_, Array.getElem?_eq_getElem hid⟩
      rw [children_of_getElem? hnode, hnode]
      by_cases hroot : d.root = id
      · obtain ⟨content, parent, children⟩ := node
        cases content <;> simp [hroot, Node.mapElement]
      · simp [hroot]
    · by_cases hroot : d.root = id <;> simp [hroot, hsvg]
  · rw [if_neg (Nat.not_lt_of_le hid), Array.getElem?_eq_none hid]
    obtain ⟨k, rfl⟩ := Nat.exists_eq_add_of_le hid
    rcases k with _ | k
    · simp [Supplement.styleNodes, Supplement.scriptNodes]
    · simp [Supplement.styleNodes, Supplement.scriptNodes]

theorem injectScript_eq_supplement {svg : NodeId} (hsvg : svg < d.nodes.size) (href : String) :
    d.injectScript svg href = d.supplement svg
      { script := if (d.ensureNamespace "xlink" xlinkUri).hasScript href then none else some href
        linkPrefix := true } := by
  have hchildren : ((d.ensureNamespace "xlink" xlinkUri).pushNode
      (.element (scriptElement href)) none).1.children svg = d.children svg := by
    rw [children_pushNode, children_eq_of_skeleton_eq (skeleton_ensureNamespace d "xlink" xlinkUri)]
  rw [injectScript_eq, hchildren]
  split
  · exact ensureNamespace_eq_supplement d svg
  · exact withScript_ensureNamespace hsvg href

theorem supplement_supplement {svg : NodeId} (hsvg : svg < d.nodes.size)
    (hroot : d.root < d.nodes.size) (style script : Option String) (linkPrefix : Bool) :
    (d.supplement svg { style }).supplement svg { script, linkPrefix } =
      d.supplement svg { style, script, linkPrefix } := by
  have hsize : (d.supplement svg { style }).nodes.size =
      d.nodes.size + 2 * style.toList.length := by
    rw [size_supplement, Supplement.length_styleNodes]
    rfl
  have hnew : ∀ nodes : Array Node, nodes.mapIdx (fun i => Supplement.adjust { script, linkPrefix }
      d.root svg (d.nodes.size + 2 * style.toList.length) (i + d.nodes.size)) = nodes := by
    intro nodes
    refine Array.ext_getElem? fun i => ?_
    have hne : ∀ {e : NodeId}, e < d.nodes.size → i + d.nodes.size ≠ e :=
      fun he => Nat.ne_of_gt (Nat.lt_of_lt_of_le he (Nat.le_add_left _ _))
    rw [Array.getElem?_mapIdx]
    rcases nodes[i]? with _ | node
    · rfl
    · exact congrArg some (Supplement.adjust_of_ne _ (hne hsvg) (hne hroot) node)
  have hnodes : ((d.supplement svg { style }).supplement svg { script, linkPrefix }).nodes =
      (d.supplement svg { style, script, linkPrefix }).nodes := by
    rw [supplement, hsize]
    simp only [supplement, Array.mapIdx_append, Array.mapIdx_mapIdx, Array.size_mapIdx]
    rw [hnew, Array.append_assoc]
    congr 1
    · refine congrArg (d.nodes.mapIdx ·) ?_
      funext id node
      exact Supplement.adjust_adjust d.root svg d.nodes.size id style script linkPrefix node
    · simp [Supplement.styleNodes, Supplement.scriptNodes]
  rw [supplement, supplement, Drawing.mk.injEq]
  exact ⟨hnodes, rfl, rfl, rfl⟩

theorem element?_supplement {svg : NodeId} {x : Supplement} {id : NodeId}
    (hid : id < d.nodes.size) : (d.supplement svg x).element? id = (d.element? id).map fun e =>
      if x.linkPrefix && id = d.root then e.ensureNamespace "xlink" xlinkUri else e := by
  rw [element?_eq, getElem?_supplement, if_pos hid, element?_eq]
  rcases d.nodes[id]? with _ | ⟨content, parent, children⟩
  · rfl
  · by_cases hroot : (x.linkPrefix && id = d.root) = true
    · cases content <;> simp [Supplement.adjust, hroot, Node.mapElement]
    · cases content <;> simp [Supplement.adjust, hroot]

theorem parent?_supplement {svg : NodeId} {x : Supplement} {id : NodeId} (hid : id < d.nodes.size) :
    (d.supplement svg x).parent? id = d.parent? id := by
  rw [parent?, getElem?_supplement, if_pos hid, parent?]
  rcases d.nodes[id]? with _ | node <;> rfl

/-- The new entries of a supplemented table. -/
theorem exists_new_of_getElem? {svg : NodeId} {x : Supplement} {id : NodeId}
    (hid : d.nodes.size ≤ id) {node : Node} (h : (d.supplement svg x).nodes[id]? = some node) :
    (∃ css ∈ x.style, node = ⟨.element ⟨"style", [], [("type", "text/css")]⟩, some svg,
        [d.nodes.size + 1]⟩ ∨ node = ⟨.text css, some d.nodes.size, []⟩) ∨
      ∃ href ∈ x.script, node = ⟨.element (scriptElement href), some svg, []⟩ := by
  rw [getElem?_supplement, if_neg (Nat.not_lt_of_le hid)] at h
  have hmem := List.mem_of_getElem? h
  simp only [Supplement.styleNodes, Supplement.scriptNodes, List.mem_append, List.mem_flatMap,
    List.mem_map, List.mem_cons, List.not_mem_nil, or_false, Option.mem_toList] at hmem
  rcases hmem with hstyle | ⟨href, hhref, rfl⟩
  · exact .inl hstyle
  · exact .inr ⟨href, hhref, rfl⟩

/-- What is new is a style or a script, and a script only if one was added. -/
theorem isNamed_supplement_of_new {svg : NodeId} {x : Supplement} {id : NodeId}
    (hid : d.nodes.size ≤ id) {localName : String} (hstyle : localName ≠ "style")
    (hscript : x.script.isSome → localName ≠ "script") :
    (d.supplement svg x).isNamed localName id = false := by
  rw [isNamed, element?_eq]
  rcases hnode : (d.supplement svg x).nodes[id]? with _ | node
  · rfl
  rcases exists_new_of_getElem? hid hnode with ⟨css, -, rfl | rfl⟩ | ⟨href, hhref, rfl⟩
  · have hname : Element.localName ⟨"style", [], [("type", "text/css")]⟩ = "style" := by decide
    exact decide_eq_false (hname.symm ▸ hstyle.symm)
  · rfl
  · have hname : (scriptElement href).localName = "script" :=
      (by decide : Element.localNameOf "script" = "script")
    exact decide_eq_false (hname.symm ▸ (hscript (Option.isSome_of_mem hhref)).symm)

theorem filter_children_supplement (hd : d.WellLinked) (svg : NodeId) (x : Supplement)
    (id : NodeId) : ((d.supplement svg x).children id).filter (· < d.nodes.size) =
      d.children id := by
  rcases Nat.lt_or_ge id d.nodes.size with hid | hid
  · obtain ⟨node, hnode⟩ : ∃ node, d.nodes[id]? = some node := ⟨_, Array.getElem?_eq_getElem hid⟩
    have hadjusted : (d.supplement svg x).nodes[id]? =
        some (x.adjust d.root svg d.nodes.size id node) := by
      rw [getElem?_supplement, if_pos hid, hnode, Option.map_some]
    have hold : node.children.filter (· < d.nodes.size) = node.children :=
      List.filter_eq_self.mpr fun c hc =>
        decide_eq_true (hd.linked id c (children_of_getElem? hnode ▸ hc)).1
    rw [children_of_getElem? hadjusted, children_of_getElem? hnode]
    show (if id = svg then x.around d.nodes.size node.children else node.children).filter _ = _
    split
    · rw [Supplement.around, List.filter_append, List.filter_append, hold]
      simp
    · exact hold
  · rw [children_eq_nil_of_size_le hid]
    refine List.filter_eq_nil_iff.mpr fun c hc => ?_
    obtain ⟨node, hnode, hmem⟩ := exists_node_of_mem_children hc
    rcases exists_new_of_getElem? hid hnode with ⟨css, -, rfl | rfl⟩ | ⟨href, -, rfl⟩
    · rw [List.mem_singleton.mp hmem]
      simp
    · simp at hmem
    · simp at hmem

theorem enriched_supplement (d : Drawing) (svg : NodeId) (x : Supplement) :
    Enriched d (d.supplement svg x) where
  size_le := by
    rw [size_supplement, Nat.add_assoc]
    exact Nat.le_add_right _ _
  outermost := rfl
  parent? _ hid := parent?_supplement hid
  name? id hid := by
    rw [name?, element?_supplement hid, Option.map_map, name?]
    rcases d.element? id with _ | e
    · rfl
    · exact congrArg some (by dsimp only [Function.comp]; split <;> simp)
  attribute? id hid key := by
    rw [attribute?, element?_supplement hid, attribute?]
    rcases d.element? id with _ | e
    · rfl
    · rw [Option.map_some, Option.bind_some, Option.bind_some]
      split <;> simp
  isNamed_eq_false id hid := isNamed_supplement_of_new hid (by decide) fun _ => by decide

/-! ### Old elements -/

theorem lt_of_mem_descendants_root (hd : d.WellLinked) {id : NodeId}
    (hid : id ∈ d.descendants d.root) : id < d.nodes.size := by
  obtain ⟨_ | k, hk⟩ := hd.mem_descendants_iff.mp hid
  · obtain rfl : id = d.root := Option.some_inj.mp hk
    exact (hd.outermost _ List.mem_cons_self).1
  · obtain ⟨p, hp, -⟩ := Option.bind_eq_some_iff.mp hk
    exact lt_of_parent? hp

section Old

variable (h : Extended d d') (hd : d.WellLinked) (hd' : d'.WellLinked)
  (hchildren : ∀ id, (d'.children id).filter (· < d.nodes.size) = d.children id)
include h hd hd' hchildren

/-- A walk through a drawing with further nodes meets the old ones as before. -/
theorem filter_descendants :
    (d'.descendants d'.root).filter (· < d.nodes.size) = d.descendants d.root := by
  have hdepth : d.preorderWithin d'.nodes.size d.root = d.preorder d.root :=
    preorderWithin_eq h.size_le (depthAtMost_of_isForest hd.toIsForest d.root)
  rw [hd'.descendants_eq, preorder, h.grown.root, filter_preorderWithin hchildren, hdepth,
    ← hd.descendants_eq]
  exact List.filter_eq_self.mpr fun _ hx => decide_eq_true (lt_of_mem_descendants_root hd hx)

theorem filter_elementsNamed (localName : String) :
    (d'.elementsNamed localName).filter (· < d.nodes.size) = d.elementsNamed localName := by
  have hcomm : (d'.elementsNamed localName).filter (· < d.nodes.size) =
      ((d'.descendants d'.root).filter (· < d.nodes.size)).filter (d'.isNamed localName) := by
    rw [elementsNamed, List.filter_filter, List.filter_filter]
    exact List.filter_congr fun _ _ => Bool.and_comm _ _
  rw [hcomm, filter_descendants h hd hd' hchildren, elementsNamed]
  refine List.filter_congr fun id hid => ?_
  rw [isNamed_eq_any_name?, h.name? id (lt_of_mem_descendants_root hd hid), ← isNamed_eq_any_name?]

/-- Where no new element has a name, the elements with that name are the old ones. -/
theorem elementsNamed_eq {localName : String}
    (hnew : ∀ id, d.nodes.size ≤ id → d'.isNamed localName id = false) :
    d'.elementsNamed localName = d.elementsNamed localName := by
  rw [← filter_elementsNamed h hd hd' hchildren]
  refine (List.filter_eq_self.mpr fun id hid => ?_).symm
  by_contra hlt
  have hnamed := hnew id (Nat.le_of_not_lt (of_decide_eq_false (Bool.eq_false_of_not_eq_true hlt)))
  exact Bool.noConfusion (hnamed.symm.trans (List.mem_filter.mp hid).2)

end Old

theorem wire_snd (d : Drawing) (r : FoldRules) : (d.wire r).2 =
    ⟨d.anchors.filter (d.bearsTarget r), d.anchors.filter (!d.bearsTarget r ·),
      d.placeholderContainers r⟩ := by
  rw [wire_eq]

section Wirings

variable (h : Enriched d d') (hd : d.WellLinked) (hd' : d'.WellLinked)
  (hchildren : ∀ id, (d'.children id).filter (· < d.nodes.size) = d.children id)
include h hd hd' hchildren

/-- A drawing to which no link was added has the wiring that it had. -/
theorem Enriched.wiring_eq (r : FoldRules) : (d'.wire r).2 = (d.wire r).2 := by
  have hanchors : d'.anchors = d.anchors :=
    elementsNamed_eq h.toExtended hd hd' hchildren h.isNamed_eq_false
  have hlt : ∀ link ∈ d.anchors, link < d.nodes.size :=
    fun link hlink => lt_size_of_isElement (isElement_of_mem_anchors hlink)
  have hreference : ∀ link ∈ d.anchors, d'.reference? r link = d.reference? r link :=
    fun link hlink => reference?_congr fun key _ => h.attribute? link (hlt link hlink) key
  have htarget : ∀ link ∈ d.anchors, d'.bearsTarget r link = d.bearsTarget r link := by
    intro link hlink
    have helement := isElement_of_mem_anchors hlink
    rw [bearsTarget, bearsTarget, attribute?_stampLink, attribute?_stampLink,
      hreference link hlink, h.attribute? link (hlt link hlink), helement,
      h.toExtended.isElement helement]
  have hplaceholders : d'.placeholderContainers r = d.placeholderContainers r := by
    rw [placeholderContainers, placeholderContainers, hanchors]
    have hrefers : d.anchors.filter (d'.refersToPlaceholder r) =
        d.anchors.filter (d.refersToPlaceholder r) := by
      refine List.filter_congr fun link hlink => ?_
      rw [refersToPlaceholder, hreference link hlink, refersToPlaceholder]
    rw [hrefers]
    refine List.filterMap_congr fun link hlink => ?_
    exact h.ancestor?_eq hd _ (hlt link (List.mem_of_mem_filter hlink))
  rw [wire_snd, wire_snd, hanchors, hplaceholders, List.filter_congr htarget,
    List.filter_congr fun link hlink => congrArg (!·) (htarget link hlink)]

end Wirings

/-- Wiring a wired drawing sorts its links as before. -/
theorem wiring_wire (htarget : r.targetAttribute ≠ "class")
    (hhref : "class" ∉ r.hrefAttributes) : ((d.wire r).1.wire r).2 = (d.wire r).2 := by
  have hbare := bare_wire d r
  have hanchors := anchors_eq hbare
  have hbears : ∀ link ∈ d.anchors, (d.wire r).1.bearsTarget r link = d.bearsTarget r link := by
    intro link hlink
    have helement := isElement_of_mem_anchors hlink
    rw [bearsTarget, bearsTarget, attribute?_stampLink, attribute?_stampLink,
      reference?_wire hhref, attribute?_wire d r link htarget, isElement_eq hbare, helement]
    by_cases hsame : r.targetAttribute = r.clusterAttribute
    · rw [if_pos ⟨rfl, hsame, rfl⟩, if_pos ⟨hlink, hsame⟩, if_pos ⟨rfl, hsame, rfl⟩,
        ← Option.or_assoc, Option.or_self]
    · rw [if_neg fun h => hsame h.2.1, if_neg fun h => hsame h.2, if_neg fun h => hsame h.2.1]
  have hplaceholders : (d.wire r).1.placeholderContainers r = d.placeholderContainers r := by
    have hancestor : ((d.wire r).1.ancestor? · r.containerDepth) =
        (d.ancestor? · r.containerDepth) :=
      funext fun link => ancestor?_eq hbare link r.containerDepth
    have hrefers : (d.wire r).1.refersToPlaceholder r = d.refersToPlaceholder r :=
      funext fun link => by rw [refersToPlaceholder, reference?_wire hhref, refersToPlaceholder]
    rw [placeholderContainers, placeholderContainers, hanchors, hrefers, hancestor]
  rw [wire_snd, wire_snd, hanchors, hplaceholders, List.filter_congr hbears,
    List.filter_congr fun link hlink => congrArg (!·) (hbears link hlink)]

/-! ### Styles and scripts that are there already -/

theorem hasStyle_wire (d : Drawing) (r : FoldRules) (css : String) :
    (d.wire r).1.hasStyle css = d.hasStyle css := by
  have hnamed : (d.wire r).1.elementsNamed "style" = d.elementsNamed "style" := by
    rw [← elementsNamed_bare, bare_wire, elementsNamed_bare]
  have htext : (d.wire r).1.textOf = d.textOf := by
    funext id
    rw [← textOf_bare, bare_wire, textOf_bare]
  rw [hasStyle, hnamed, htext, hasStyle]

theorem hasScript_congr (hnamed : d'.elementsNamed "script" = d.elementsNamed "script")
    (h : ∀ id ∈ d.elementsNamed "script",
      d'.attribute? id "xlink:href" = d.attribute? id "xlink:href") (href : String) :
    d'.hasScript href = d.hasScript href := by
  rw [hasScript, hnamed, hasScript, Bool.eq_iff_iff, List.any_eq_true, List.any_eq_true]
  refine exists_congr fun id => and_congr_right fun hid => ?_
  rw [h id hid]

/-- Scripts are no links, and so they keep what they refer to. -/
theorem hasScript_wire (d : Drawing) (r : FoldRules) (href : String) :
    (d.wire r).1.hasScript href = d.hasScript href := by
  have hnamed : (d.wire r).1.elementsNamed "script" = d.elementsNamed "script" := by
    rw [← elementsNamed_bare, bare_wire, elementsNamed_bare]
  refine hasScript_congr hnamed (fun id hid => ?_) href
  have hlink : id ∉ d.anchors := by
    intro hlink
    have hscript := (List.mem_filter.mp hid).2
    have ha := (List.mem_filter.mp hlink).2
    rw [isNamed, Option.any_eq_true] at hscript ha
    obtain ⟨e, he, hname⟩ := hscript
    obtain ⟨e', he', hname'⟩ := ha
    obtain rfl := Option.some_inj.mp (he.symm.trans he')
    exact absurd ((of_decide_eq_true hname).symm.trans (of_decide_eq_true hname')) (by decide)
  rw [attribute?_wire d r id (by decide), if_neg fun h => hlink h.1]

theorem Enriched.hasScript_eq (h : Enriched d d') (hd : d.WellLinked) (hd' : d'.WellLinked)
    (hchildren : ∀ id, (d'.children id).filter (· < d.nodes.size) = d.children id)
    (hnew : ∀ id, d.nodes.size ≤ id → d'.isNamed "script" id = false) (href : String) :
    d'.hasScript href = d.hasScript href :=
  hasScript_congr (elementsNamed_eq h.toExtended hd hd' hchildren hnew)
    (fun id hid => h.attribute? id (lt_size_of_isElement (isElement_of_isNamed
      (List.mem_filter.mp hid).2)) "xlink:href") href

/-- Declaring a prefix adds no script. -/
theorem hasScript_ensureNamespace (hd : d.WellLinked) (name uri href : String) :
    (d.ensureNamespace name uri).hasScript href = d.hasScript href := by
  have hskeleton := skeleton_ensureNamespace d name uri
  refine (enriched_ensureNamespace d name uri).hasScript_eq hd (hd.of_skeleton_eq hskeleton)
    (fun id => ?_) (fun id hid => ?_) href
  · rw [children_eq_of_skeleton_eq hskeleton]
    exact List.filter_eq_self.mpr fun c hc => decide_eq_true (hd.linked id c hc).1
  · exact isNamed_eq_false_of_size_le (size_eq_of_skeleton_eq hskeleton ▸ hid) "script"

/-! ### Prepared drawings -/

/-- The stylesheet, if it is asked for and is not there. -/
theorem injectStyle_missing (hd : d.WellLinked) {svg : NodeId} (hsvg : svg < d.nodes.size)
    (r : FoldRules) (s : StyleRules) (options : PrepareOptions) :
    (if options.inlineStyle then (d.wire r).1.injectStyle svg (stylesheet r s)
      else (d.wire r).1) =
      (d.wire r).1.supplement svg { style := (d.missing r s options).style } := by
  have hlt : svg < (d.wire r).1.nodes.size := Nat.lt_of_lt_of_le hsvg (hd.wire r).2.size_le
  rw [missing]
  cases hinline : options.inlineStyle with
  | false => exact (supplement_nothing _ svg).symm
  | true =>
    rw [if_pos rfl]
    cases hcss : d.hasStyle (stylesheet r s) with
    | true =>
      rw [injectStyle, if_pos (by rwa [hasStyle_wire])]
      exact (supplement_nothing _ svg).symm
    | false => exact injectStyle_eq_supplement (by rwa [hasStyle_wire]) hlt

/-- A style is no script, and neither wiring nor the prefix makes one. -/
theorem hasScript_styled (hd : d.WellLinked) (r : FoldRules) {svg : NodeId} {style : Option String}
    (hstyled : ((d.wire r).1.supplement svg { style }).WellLinked) (name uri href : String) :
    (((d.wire r).1.supplement svg { style }).ensureNamespace name uri).hasScript href =
      d.hasScript href := by
  obtain ⟨hwell, -⟩ := hd.wire r
  rw [hasScript_ensureNamespace hstyled,
    (enriched_supplement (d.wire r).1 svg { style }).hasScript_eq hwell hstyled
      (filter_children_supplement hwell svg _)
      (fun id hid => isNamed_supplement_of_new hid (by decide) (by simp)), hasScript_wire]

/-- Preparing adds what is missing to the wired drawing. -/
theorem prepare_eq_supplement (hd : d.WellLinked) {svg : NodeId} (hsvg : d.svgRoot? = some svg)
    (r : FoldRules) (s : StyleRules) (options : PrepareOptions) : d.prepare r s options =
      some ((d.wire r).1.supplement svg (d.missing r s options), (d.wire r).2) := by
  have hsource : d.isElement svg = true :=
    isElement_of_isNamed (List.find?_eq_some_iff_append.mp hsvg).1
  obtain ⟨hwell, hextended⟩ := hd.wire r
  have helement := hextended.isElement hsource
  have hlt := lt_size_of_isElement helement
  have hroot : (d.wire r).1.root < (d.wire r).1.nodes.size :=
    (hwell.outermost _ List.mem_cons_self).1
  have hstyle := injectStyle_missing hd (lt_size_of_isElement hsource) r s options
  -- The script is added to the drawing that has its style by then.
  have hstyled : ((d.wire r).1.supplement svg
      { style := (d.missing r s options).style }).WellLinked := by
    rw [← hstyle]
    split
    · exact (hwell.injectStyle helement _).1
    · exact hwell
  have hlt' : svg < ((d.wire r).1.supplement svg
      { style := (d.missing r s options).style }).nodes.size := by
    rw [size_supplement, Nat.add_assoc]
    exact Nat.lt_add_right _ hlt
  rw [prepare, hsvg, Option.map_some]
  simp only [hstyle]
  rcases hhref : options.scriptHref with _ | href
  · simp [missing, hhref]
  · simp only []
    rw [injectScript_eq_supplement hlt', hasScript_styled hd r hstyled,
      supplement_supplement hlt hroot]
    cases hhas : d.hasScript href <;> simp [missing, hhref, hhas, Option.filter]

/-- Preparing succeeds for every drawing that was read and has an `svg` element below its root, and
only for those.  It yields the wired drawing with what was missing: at most a style with the
stylesheet as the first child of the first `svg` element and a script as its last one, and the
prefix of links.  If this is prepared again, it is left as it is, with the same wiring. -/
theorem prepare_of_ofString {text : String} (h : ofString text = .ok d)
    (hhidden : IsWord r.hiddenClass) (hcluster : r.clusterAttribute ≠ "class")
    (htarget : r.targetAttribute ≠ "class") (hhref : "class" ∉ r.hrefAttributes) (s : StyleRules)
    (options : PrepareOptions) :
    (d.svgRoot? = none → d.prepare r s options = none) ∧
    ∀ svg, d.svgRoot? = some svg →
      let w := (d.wire r).2
      let prepared := (d.wire r).1.supplement svg (d.missing r s options)
      d.prepare r s options = some (prepared, w) ∧
        prepared.prepare r s options = some (prepared, w) := by
  refine ⟨fun hsvg => by rw [prepare, hsvg]; rfl, fun svg hsvg => ?_⟩
  intro w prepared
  have hd := wellLinked_ofString h
  have hprepare := prepare_eq_supplement hd hsvg r s options
  refine ⟨hprepare, ?_⟩
  obtain ⟨hwell, -⟩ := hd.wire r
  obtain ⟨hprepared, hextended⟩ := hd.prepare hprepare
  have hfixed := isPrepared_prepare hhidden hcluster hhref hd hprepare
  -- The drawing has its `svg` element still.
  have hmem : svg ∈ d.elementsNamed "svg" :=
    List.mem_filter.mpr ⟨List.mem_of_find?_eq_some hsvg, (List.find?_eq_some_iff_append.mp hsvg).1⟩
  have hlt := lt_size_of_isElement (isElement_of_isNamed (List.mem_filter.mp hmem).2)
  obtain ⟨svg', hsvg'⟩ := Option.isSome_iff_exists.mp (isSome_svgRoot?.mpr
    ⟨svg, (hextended.mem_elementsNamed_iff hd hprepared hlt "svg").mpr hmem⟩)
  have hwiring : (prepared.wire r).2 = w := by
    rw [(enriched_supplement (d.wire r).1 svg _).wiring_eq hwell hprepared
      (filter_children_supplement hwell svg _) r, wiring_wire htarget hhref]
  rw [hfixed.prepare_eq hsvg', hwiring]

/-- The children of the outermost element, once a style and a script are among them. -/
theorem prepare_nestedPair : ∃ prepared w,
    nestedPair.prepare {} {} ⟨true, some "m.js"⟩ = some (prepared, w) ∧
      prepared.prepare {} {} ⟨true, some "m.js"⟩ = some (prepared, w) ∧
      prepared.nodes.size = 13 ∧ prepared.children 0 = [10, 1, 4, 7, 12] := by
  have hsvg : nestedPair.svgRoot? = some 0 := by decide +kernel
  obtain ⟨hprepare, hagain⟩ := (prepare_of_ofString ofString_nestedPair (r := {}) (by decide)
    (by decide) (by decide) (by decide) {} ⟨true, some "m.js"⟩).2 0 hsvg
  exact ⟨_, _, hprepare, hagain, by decide +kernel, by decide +kernel⟩

/-- Not every drawing that can be read can be prepared. -/
theorem not_forall_prepare_eq_some : ¬∀ text d, ofString text = .ok d →
    ∃ prepared w, d.prepare {} {} {} = some (prepared, w) := by
  intro h
  obtain ⟨prepared, w, hprepare⟩ := h Snapshot.rootlessText Snapshot.rootless
    Snapshot.ofString_rootless
  have hnone : Snapshot.rootless.prepare {} {} {} = none := by decide +kernel
  exact absurd (hnone.symm.trans hprepare) (Option.some_ne_none _).symm

end Drawing
end GraphFolding
