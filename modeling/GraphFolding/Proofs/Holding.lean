/-
Tables that hold markup.

* `Holds`, `HoldsAll` — a table of nodes holds markup at a place, links included;
* `Drawing.Holds` — a drawing holds a document;
* `Holds.eq` — what a table holds at a place is determined by the table;
* `Drawing.IsForest.exists_holds` — a drawing whose links form a forest holds a document;
* `Holds.height_le` — held markup is no deeper than the table is long;
* `Drawing.Holds.toList_text` — a drawing is written as the document that it holds.
-/
import GraphFolding.Proofs.Markup
namespace GraphFolding

mutual

/-- Whether a table holds markup at a place, hanging below `parent`. -/
def Holds (nodes : Array Node) (parent : Option NodeId) (id : NodeId) : Markup → Prop
  | .element e children => ∃ ids, nodes[id]? = some ⟨.element e, parent, ids⟩ ∧
      HoldsAll nodes (some id) ids children
  | .text value => nodes[id]? = some ⟨.text value, parent, []⟩
  | .comment value => nodes[id]? = some ⟨.comment value, parent, []⟩
  | .instruction target value => nodes[id]? = some ⟨.instruction target value, parent, []⟩

/-- As `Holds`, for several places one after the other. -/
def HoldsAll (nodes : Array Node) (parent : Option NodeId) : List NodeId → List Markup → Prop
  | ids, [] => ids = []
  | ids, m :: ms => ∃ id rest, ids = id :: rest ∧ Holds nodes parent id m ∧
      HoldsAll nodes parent rest ms

end

/-- Whether a drawing holds a document. -/
structure Drawing.Holds (d : Drawing) (doc : Markup.Document) : Prop where
  prologue : HoldsAll d.nodes none d.prologue doc.prologue
  root : GraphFolding.Holds d.nodes none d.root doc.root
  epilogue : HoldsAll d.nodes none d.epilogue doc.epilogue

namespace Markup

/-- What a node holds that markup is held at. -/
def content : Markup → NodeContent
  | element e _ => .element e
  | text value => .text value
  | comment value => .comment value
  | instruction target value => .instruction target value

/-- What stands in markup. -/
def children : Markup → List Markup
  | element _ children => children
  | _ => []

theorem eq_of_content_eq {m m' : Markup} (h : m.content = m'.content)
    (hchildren : m.children = m'.children) : m = m' := by
  cases m <;> cases m' <;> simp_all [content, children]

theorem children_eq_nil {m m' : Markup} (h : m.content = m'.content)
    (hm : ∀ e children, m ≠ element e children) : m.children = m'.children := by
  cases m <;> cases m' <;> simp_all [content, children]

end Markup

section Table

variable {nodes : Array Node}

/-- The node that markup is held at. -/
theorem Holds.node {parent : Option NodeId} {id : NodeId} {m : Markup}
    (h : Holds nodes parent id m) : ∃ ids, nodes[id]? = some ⟨m.content, parent, ids⟩ ∧
      HoldsAll nodes (some id) ids m.children := by
  cases m with
  | element e children => exact h
  | text value => exact ⟨[], h, rfl⟩
  | comment value => exact ⟨[], h, rfl⟩
  | instruction target value => exact ⟨[], h, rfl⟩

theorem Holds.lt {parent : Option NodeId} {id : NodeId} {m : Markup}
    (h : Holds nodes parent id m) : id < nodes.size := by
  obtain ⟨ids, hnode, -⟩ := h.node
  exact (Array.getElem?_eq_some_iff.mp hnode).1

theorem HoldsAll.isEmpty_eq {parent : Option NodeId} {ids : List NodeId} {ms : List Markup}
    (h : HoldsAll nodes parent ids ms) : ids.isEmpty = ms.isEmpty := by
  cases ms with
  | nil =>
    rw [HoldsAll] at h
    rw [h]
    rfl
  | cons m ms =>
    obtain ⟨id, rest, rfl, -⟩ := h
    rfl

theorem Holds.content_eq {id : NodeId} {m m' : Markup} {parent parent' : Option NodeId}
    (h : Holds nodes parent id m) (h' : Holds nodes parent' id m') : m.content = m'.content := by
  obtain ⟨ids, hnode, -⟩ := h.node
  obtain ⟨ids', hnode', -⟩ := h'.node
  rw [hnode] at hnode'
  exact congrArg Node.content (Option.some_inj.mp hnode')

mutual

/-- What a table holds at a place is determined by the table. -/
theorem Holds.eq {id : NodeId} : ∀ (m m' : Markup) {parent parent' : Option NodeId},
    Holds nodes parent id m → Holds nodes parent' id m' → m = m'
  | .element e children, m', parent, parent', h, h' => by
    have hcontent := h.content_eq h'
    obtain ⟨ids, hnode, hall⟩ := h
    obtain ⟨ids', hnode', hall'⟩ := h'.node
    rw [hnode] at hnode'
    obtain rfl : ids = ids' := congrArg Node.children (Option.some_inj.mp hnode')
    exact Markup.eq_of_content_eq hcontent (HoldsAll.eq children m'.children hall hall')
  | .text _, _, _, _, h, h' =>
    have hcontent := h.content_eq h'
    Markup.eq_of_content_eq hcontent (Markup.children_eq_nil hcontent (by simp))
  | .comment _, _, _, _, h, h' =>
    have hcontent := h.content_eq h'
    Markup.eq_of_content_eq hcontent (Markup.children_eq_nil hcontent (by simp))
  | .instruction .., _, _, _, h, h' =>
    have hcontent := h.content_eq h'
    Markup.eq_of_content_eq hcontent (Markup.children_eq_nil hcontent (by simp))

/-- As `Holds.eq`, for several places. -/
theorem HoldsAll.eq : ∀ (ms ms' : List Markup) {ids : List NodeId} {parent parent' : Option NodeId},
    HoldsAll nodes parent ids ms → HoldsAll nodes parent' ids ms' → ms = ms'
  | [], [], _, _, _, _, _ => rfl
  | [], m' :: ms', ids, parent, parent', h, h' => by
    have hempty := h.isEmpty_eq.symm.trans h'.isEmpty_eq
    simp at hempty
  | m :: ms, [], ids, parent, parent', h, h' => by
    have hempty := h.isEmpty_eq.symm.trans h'.isEmpty_eq
    simp at hempty
  | m :: ms, m' :: ms', ids, parent, parent', h, h' => by
    obtain ⟨id, rest, rfl, hm, hms⟩ := h
    obtain ⟨id', rest', heq, hm', hms'⟩ := h'
    obtain ⟨rfl, rfl⟩ := List.cons.inj heq
    rw [Holds.eq m m' hm hm', HoldsAll.eq ms ms' hms hms']

end

end Table

/-! ### Forests -/

/-- A drawing whose links form a forest: no node is below itself, children and parents agree,
only elements have children, and what stands outermost hangs nowhere. -/
structure Drawing.IsForest (d : Drawing) : Prop where
  acyclic : WellFounded fun c id => c ∈ d.children id
  linked : ∀ id, ∀ c ∈ d.children id, c < d.nodes.size ∧ d.parent? c = some id
  elements : ∀ id, d.children id ≠ [] → (d.element? id).isSome = true
  outermost : ∀ id ∈ d.root :: (d.prologue ++ d.epilogue),
    id < d.nodes.size ∧ d.parent? id = none

theorem exists_holdsAll {nodes : Array Node} {parent : Option NodeId} (ids : List NodeId)
    (h : ∀ id ∈ ids, ∃ m, Holds nodes parent id m) : ∃ ms, HoldsAll nodes parent ids ms := by
  induction ids with
  | nil => exact ⟨[], rfl⟩
  | cons id ids ih =>
    obtain ⟨m, hm⟩ := h id List.mem_cons_self
    obtain ⟨ms, hms⟩ := ih fun x hx => h x (List.mem_cons_of_mem id hx)
    exact ⟨m :: ms, id, ids, rfl, hm, hms⟩

namespace Drawing.IsForest

variable {d : Drawing} (hd : d.IsForest)
include hd

theorem exists_holds_at (id : NodeId) : id < d.nodes.size →
    ∃ m, GraphFolding.Holds d.nodes (d.parent? id) id m := by
  induction id using hd.acyclic.induction with
  | _ id ih =>
    intro hlt
    rcases hnode : d.nodes[id]? with _ | ⟨content, parent, ids⟩
    · exact absurd (Array.getElem?_eq_none_iff.mp hnode) (Nat.not_le_of_lt hlt)
    · have hchildren : d.children id = ids := by rw [children, hnode]
      have hparent : d.parent? id = parent := by
        rw [parent?, hnode]
        rfl
      have hbelow : ∀ c ∈ ids, ∃ m, GraphFolding.Holds d.nodes (some id) c m := by
        intro c hc
        have hmem : c ∈ d.children id := hchildren ▸ hc
        obtain ⟨hclt, hcparent⟩ := hd.linked id c hmem
        rw [← hcparent]
        exact ih c hmem hclt
      obtain ⟨ms, hms⟩ := exists_holdsAll ids hbelow
      -- What is no element has no children, and so is held as it stands.
      have hleaf : (∀ e, content ≠ .element e) → ids = [] := by
        intro hcontent
        refine Decidable.byContradiction fun hne => ?_
        have hsome := hd.elements id (hchildren ▸ hne)
        rw [element?, hnode] at hsome
        cases content with
        | element e => exact hcontent e rfl
        | _ => simp at hsome
      rw [hparent]
      cases content with
      | element e => exact ⟨.element e ms, ids, hnode, hms⟩
      | text value => exact ⟨.text value, by rw [hleaf (by simp)] at hnode; exact hnode⟩
      | comment value => exact ⟨.comment value, by rw [hleaf (by simp)] at hnode; exact hnode⟩
      | instruction target value =>
        exact ⟨.instruction target value, by rw [hleaf (by simp)] at hnode; exact hnode⟩

/-- A drawing whose links form a forest holds a document. -/
theorem exists_holds : ∃ doc, d.Holds doc := by
  have htop : ∀ id ∈ d.root :: (d.prologue ++ d.epilogue),
      ∃ m, GraphFolding.Holds d.nodes none id m := by
    intro id hid
    obtain ⟨hlt, hparent⟩ := hd.outermost id hid
    rw [← hparent]
    exact hd.exists_holds_at id hlt
  obtain ⟨root, hroot⟩ := htop d.root List.mem_cons_self
  obtain ⟨prologue, hprologue⟩ := exists_holdsAll d.prologue fun id hid =>
    htop id (List.mem_cons_of_mem _ (List.mem_append_left _ hid))
  obtain ⟨epilogue, hepilogue⟩ := exists_holdsAll d.epilogue fun id hid =>
    htop id (List.mem_cons_of_mem _ (List.mem_append_right _ hid))
  exact ⟨⟨prologue, root, epilogue⟩, hprologue, hroot, hepilogue⟩

end Drawing.IsForest

/-! ### Depth -/

section Depth

variable {nodes : Array Node}

/-- A path of places above markup, each of which holds something larger. -/
structure Above (nodes : Array Node) (path : List NodeId) (size : Nat) : Prop where
  nodup : path.Nodup
  larger : ∀ a ∈ path, ∃ parent m, Holds nodes parent a m ∧ size < sizeOf m

theorem Above.length_le {path : List NodeId} {size : Nat} (h : Above nodes path size) :
    path.length ≤ nodes.size := by
  have hsub : path ⊆ List.range nodes.size := by
    intro a ha
    obtain ⟨parent, m, hm, -⟩ := h.larger a ha
    exact List.mem_range.mpr hm.lt
  have hle := h.nodup.length_le_of_subset hsub
  rwa [List.length_range] at hle

theorem Above.mono {path : List NodeId} {size size' : Nat} (h : Above nodes path size)
    (hle : size' ≤ size) : Above nodes path size' := by
  refine ⟨h.nodup, fun a ha => ?_⟩
  obtain ⟨parent, m, hm, hlt⟩ := h.larger a ha
  exact ⟨parent, m, hm, Nat.lt_of_le_of_lt hle hlt⟩

theorem Above.cons {path : List NodeId} {parent : Option NodeId} {id : NodeId} {m : Markup}
    (h : Above nodes path (sizeOf m)) (hm : Holds nodes parent id m) {size : Nat}
    (hsize : size < sizeOf m) : Above nodes (id :: path) size := by
  refine ⟨List.nodup_cons.mpr ⟨fun hid => ?_, h.nodup⟩, fun a ha => ?_⟩
  · -- Nothing is larger than itself, so no place occurs twice.
    obtain ⟨parent', m', hm', hlt⟩ := h.larger id hid
    rw [Holds.eq m m' hm hm'] at hlt
    exact Nat.lt_irrefl _ hlt
  · rcases List.mem_cons.mp ha with rfl | ha
    · exact ⟨parent, m, hm, hsize⟩
    · obtain ⟨parent', m', hm', hlt⟩ := h.larger a ha
      exact ⟨parent', m', hm', Nat.lt_trans hsize hlt⟩

theorem Holds.succ_length_le {parent : Option NodeId} {id : NodeId} {m : Markup}
    {path : List NodeId} (h : Holds nodes parent id m) (hpath : Above nodes path (sizeOf m)) :
    1 + path.length ≤ nodes.size := by
  have hpos : 0 < sizeOf m := by
    cases m <;> simp only [Markup.element.sizeOf_spec, Markup.text.sizeOf_spec,
      Markup.comment.sizeOf_spec, Markup.instruction.sizeOf_spec] <;> omega
  have hle := (hpath.cons h hpos).length_le
  rw [List.length_cons] at hle
  omega

end Depth

namespace Markup

mutual

/-- The number of levels of markup. -/
def height : Markup → Nat
  | element _ children => allHeight children + 1
  | _ => 1

/-- The number of levels of the deepest of them. -/
def allHeight : List Markup → Nat
  | [] => 0
  | m :: ms => max m.height (allHeight ms)

end

theorem exists_eq_succ {m : Markup} {depth : Nat} (h : m.height ≤ depth) :
    ∃ n, depth = n + 1 := by
  have hpos : 0 < m.height := by
    cases m <;> simp [height]
  exact ⟨depth - 1, by omega⟩

end Markup

mutual

theorem Holds.height_add_le {nodes : Array Node} {id : NodeId} : ∀ (m : Markup)
    {parent : Option NodeId} {path : List NodeId}, Holds nodes parent id m →
    Above nodes path (sizeOf m) → m.height + path.length ≤ nodes.size
  | .element e children, parent, path, h, hpath => by
    have hsize : sizeOf children < sizeOf (Markup.element e children) := by
      rw [Markup.element.sizeOf_spec]
      omega
    -- The element joins the path above its children, which are smaller.
    have hcons := hpath.cons h hsize
    obtain ⟨ids, -, hall⟩ := h
    have hle := HoldsAll.height_add_le children hall hcons
    rw [Markup.height]
    simp only [List.length_cons] at hle
    omega
  | .text _, _, _, h, hpath => h.succ_length_le hpath
  | .comment _, _, _, h, hpath => h.succ_length_le hpath
  | .instruction .., _, _, h, hpath => h.succ_length_le hpath

theorem HoldsAll.height_add_le {nodes : Array Node} : ∀ (ms : List Markup) {ids : List NodeId}
    {parent : Option NodeId} {path : List NodeId}, HoldsAll nodes parent ids ms →
    Above nodes path (sizeOf ms) → Markup.allHeight ms + path.length ≤ nodes.size
  | [], _, _, path, _, hpath => by
    have hle := hpath.length_le
    rw [Markup.allHeight]
    omega
  | m :: ms, ids, parent, path, h, hpath => by
    obtain ⟨id, rest, rfl, hm, hms⟩ := h
    have hsize : sizeOf (m :: ms) = 1 + sizeOf m + sizeOf ms := rfl
    have hfirst := Holds.height_add_le m hm (hpath.mono (by omega))
    have hmore := HoldsAll.height_add_le ms hms (hpath.mono (by omega))
    rw [Markup.allHeight]
    omega

end

/-- Held markup is no deeper than the table is long. -/
theorem Holds.height_le {nodes : Array Node} {parent : Option NodeId} {id : NodeId} {m : Markup}
    (h : Holds nodes parent id m) : m.height ≤ nodes.size := by
  have hnone : Above nodes [] (sizeOf m) := ⟨List.nodup_nil, by simp⟩
  exact Holds.height_add_le m h hnone

/-! ### Writing -/

theorem Node.toList_text_element (e : Element) (parent : Option NodeId) (ids : List NodeId)
    (inner : String) : (Node.text ⟨.element e, parent, ids⟩ inner).toList =
      if ids.isEmpty then e.startText.toList ++ "/>".toList
      else
        e.startText.toList ++ ['>'] ++ inner.toList ++ "</".toList ++ e.name.toList ++ ['>'] := by
  simp only [Node.text, Element.text]
  split
  · simp
  · simp

mutual

/-- A node is written as the markup held at it. -/
theorem Holds.toList_nodeTextWithin {d : Drawing} {id : NodeId} : ∀ (m : Markup)
    {parent : Option NodeId} {depth : Nat}, Holds d.nodes parent id m → m.height ≤ depth →
    (d.nodeTextWithin depth id).toList = m.chars
  | .element e children, parent, depth, h, hdepth => by
    obtain ⟨depth, rfl⟩ := Markup.exists_eq_succ hdepth
    rw [Markup.height] at hdepth
    obtain ⟨ids, hnode, hall⟩ := h
    have hinner := HoldsAll.toList_nodeTextWithin children hall (Nat.le_of_succ_le_succ hdepth)
    rw [Drawing.nodeTextWithin, hnode]
    simp only []
    rw [Node.toList_text_element, hall.isEmpty_eq, hinner, Markup.chars]
  | .text value, parent, depth, h, hdepth => by
    obtain ⟨depth, rfl⟩ := Markup.exists_eq_succ hdepth
    rw [Holds] at h
    rw [Drawing.nodeTextWithin, h]
    rfl
  | .comment value, parent, depth, h, hdepth => by
    obtain ⟨depth, rfl⟩ := Markup.exists_eq_succ hdepth
    rw [Holds] at h
    rw [Drawing.nodeTextWithin, h]
    simp [Node.text, Markup.chars]
  | .instruction target value, parent, depth, h, hdepth => by
    obtain ⟨depth, rfl⟩ := Markup.exists_eq_succ hdepth
    rw [Holds] at h
    rw [Drawing.nodeTextWithin, h]
    cases value with
    | none => simp [Node.text, Markup.chars]
    | some v => simp [Node.text, Markup.chars]

/-- As `Holds.toList_nodeTextWithin`, for several places. -/
theorem HoldsAll.toList_nodeTextWithin {d : Drawing} : ∀ (ms : List Markup) {ids : List NodeId}
    {parent : Option NodeId} {depth : Nat}, HoldsAll d.nodes parent ids ms →
    Markup.allHeight ms ≤ depth →
    (String.join (ids.map (d.nodeTextWithin depth))).toList = Markup.allChars ms
  | [], ids, _, _, h, _ => by
    rw [HoldsAll] at h
    rw [h]
    rfl
  | m :: ms, ids, parent, depth, h, hdepth => by
    obtain ⟨id, rest, rfl, hm, hms⟩ := h
    rw [Markup.allHeight] at hdepth
    have hfirst := Holds.toList_nodeTextWithin m hm (Nat.le_trans (Nat.le_max_left ..) hdepth)
    have hmore := HoldsAll.toList_nodeTextWithin ms hms (Nat.le_trans (Nat.le_max_right ..) hdepth)
    rw [String.toList_join] at hmore ⊢
    rw [List.map_cons, List.flatMap_cons, hfirst, hmore, Markup.allChars]

end

/-- Nodes are written on lines of their own as the markup held at them. -/
theorem HoldsAll.toList_lines {d : Drawing} : ∀ {ms : List Markup} {ids : List NodeId},
    HoldsAll d.nodes none ids ms →
    (String.join (ids.map d.lineText)).toList = Markup.lineChars ms := by
  intro ms
  induction ms with
  | nil =>
    intro ids h
    rw [HoldsAll] at h
    rw [h]
    rfl
  | cons m ms ih =>
    intro ids h
    obtain ⟨id, rest, rfl, hm, hms⟩ := h
    have hfirst := Holds.toList_nodeTextWithin m hm hm.height_le
    have hmore := ih hms
    have hlines : Markup.lineChars (m :: ms) = m.chars ++ ['\n'] ++ Markup.lineChars ms := rfl
    rw [hlines, ← hmore, ← hfirst]
    simp [Drawing.lineText, Drawing.nodeText]

/-- A drawing is written as the document that it holds. -/
theorem Drawing.Holds.toList_text {d : Drawing} {doc : Markup.Document} (h : d.Holds doc) :
    d.text.toList = doc.chars := by
  have hroot := GraphFolding.Holds.toList_nodeTextWithin doc.root h.root h.root.height_le
  rw [text, Markup.Document.chars, ← h.prologue.toList_lines, ← h.epilogue.toList_lines, ← hroot]
  simp [lineText, nodeText]

end GraphFolding
