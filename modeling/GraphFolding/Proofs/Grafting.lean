/-
Drawings that were read: how the nodes of a document lie in the table.

Nodes are entered one after the other, an element before what stands in it.  So children
lie behind their parent (`Drawing.Growing`), whatever hangs somewhere hangs below an
element (`Drawing.ParentsAreElements`), and nothing that was entered before is touched:

* `grafted_graft` — one node of a document with all that stands in it;
* `growing_ofString`, `parentsAreElements_ofString` — a whole drawing.
-/
import GraphFolding.Drawing.OfDocument
import GraphFolding.Proofs.Reading
import GraphFolding.Proofs.Visibility
namespace GraphFolding.Drawing

/-- Whether a table holds an element at a place. -/
def HoldsElement (nodes : Array Node) (id : NodeId) : Prop :=
  ∃ node e, nodes[id]? = some node ∧ node.content = .element e

/-- A table in which children lie behind their parents, which are elements. -/
structure GrowingTable (nodes : Array Node) : Prop where
  parents : ∀ {id p : NodeId} {node : Node}, nodes[id]? = some node → node.parent = some p →
    HoldsElement nodes p
  children : ∀ {id c : NodeId} {node : Node}, nodes[id]? = some node → c ∈ node.children →
    id < c ∧ c < nodes.size

/-- A table that holds another one and some new nodes behind it. -/
structure Grafted (nodes out : Array Node) (ids : List NodeId) : Prop where
  growing : GrowingTable out
  size_le : nodes.size ≤ out.size
  kept : ∀ i < nodes.size, out[i]? = nodes[i]?
  new : ∀ id ∈ ids, nodes.size ≤ id ∧ id < out.size

theorem HoldsElement.lt {nodes : Array Node} {id : NodeId} (h : HoldsElement nodes id) :
    id < nodes.size := by
  obtain ⟨node, -, hnode, -⟩ := h
  exact (Array.getElem?_eq_some_iff.mp hnode).1

/-- What a table holds stays where it is. -/
theorem HoldsElement.kept {nodes out : Array Node} {id : NodeId} (h : HoldsElement nodes id)
    (hkept : ∀ i < nodes.size, out[i]? = nodes[i]?) : HoldsElement out id := by
  have hlt := h.lt
  obtain ⟨node, e, hnode, he⟩ := h
  exact ⟨node, e, by rw [hkept id hlt, hnode], he⟩

theorem growingTable_empty : GrowingTable #[] where
  parents h := by simp at h
  children h := by simp at h

theorem grafted_push {nodes : Array Node} (hn : GrowingTable nodes) (content : NodeContent)
    {parent : Option NodeId} (hp : ∀ p, parent = some p → HoldsElement nodes p) :
    Grafted nodes (nodes.push ⟨content, parent, []⟩) [nodes.size] := by
  have hkept : ∀ i < nodes.size, (nodes.push ⟨content, parent, []⟩)[i]? = nodes[i]? := by
    intro i hi
    rw [Array.getElem?_push, if_neg (by omega)]
  -- An entry of the longer table is an old one or the new one.
  have hcases : ∀ {i : NodeId} {node : Node},
      (nodes.push ⟨content, parent, []⟩)[i]? = some node →
      nodes[i]? = some node ∨ node = ⟨content, parent, []⟩ := by
    intro i node h
    rw [Array.getElem?_push] at h
    split at h
    · exact .inr (Option.some_inj.mp h).symm
    · exact .inl h
  refine ⟨⟨fun {id p node} hnode hparent => ?_, fun {id c node} hnode hc => ?_⟩, by simp,
    hkept, by simp⟩
  · rcases hcases hnode with hold | rfl
    · exact (hn.parents hold hparent).kept hkept
    · exact (hp p hparent).kept hkept
  · rcases hcases hnode with hold | rfl
    · have := hn.children hold hc
      rw [Array.size_push]
      exact ⟨this.1, Nat.lt_succ_of_lt this.2⟩
    · simp at hc

theorem growingTable_setChildren {nodes : Array Node} (hn : GrowingTable nodes) {id : NodeId}
    {ids : List NodeId} (hids : ∀ c ∈ ids, id < c ∧ c < nodes.size) :
    GrowingTable (nodes.modify id fun node => { node with children := ids }) := by
  have hholds : ∀ {p}, HoldsElement nodes p →
      HoldsElement (nodes.modify id fun node => { node with children := ids }) p := by
    rintro p ⟨node, e, hnode, he⟩
    by_cases h : id = p
    · exact ⟨{ node with children := ids }, e, by rw [Array.getElem?_modify, if_pos h, hnode]; rfl,
        he⟩
    · exact ⟨node, e, by rw [Array.getElem?_modify, if_neg h, hnode], he⟩
  refine ⟨fun {i p node} hnode hparent => ?_, fun {i c node} hnode hc => ?_⟩
  · rw [Array.getElem?_modify] at hnode
    split at hnode
    · obtain ⟨old, hold, rfl⟩ := Option.map_eq_some_iff.mp hnode
      exact hholds (hn.parents hold hparent)
    · exact hholds (hn.parents hnode hparent)
  · rw [Array.getElem?_modify] at hnode
    rw [Array.size_modify]
    split at hnode
    · rename_i hid
      obtain ⟨old, -, rfl⟩ := Option.map_eq_some_iff.mp hnode
      exact hid ▸ hids c hc
    · exact hn.children hnode hc

theorem graft_element (inherited : Xml.Scope) (parent : Option NodeId) (nodes : Array Node)
    (tag : Xml.Tag) (children : List Xml.Node) {out : Array Node} {ids : List NodeId}
    (h : graftAll tag.scope nodes.size
      (nodes.push ⟨.element (.ofTag inherited tag), parent, []⟩) children = (out, ids)) :
    graft inherited parent nodes (.element tag children) =
      (out.modify nodes.size fun node => { node with children := ids }, nodes.size) := by
  rw [graft, h]

theorem graftAll_cons (inherited : Xml.Scope) (parent : NodeId) (nodes : Array Node)
    (x : Xml.Node) (xs : List Xml.Node) {out out' : Array Node} {id : NodeId} {ids : List NodeId}
    (hx : graft inherited (some parent) nodes x = (out, id))
    (hxs : graftAll inherited parent out xs = (out', ids)) :
    graftAll inherited parent nodes (x :: xs) = (out', id :: ids) := by
  rw [graftAll, hx]
  simp only [hxs]

mutual

/-- One node of a document entered, with all that stands in it. -/
theorem grafted_graft (inherited : Xml.Scope) {parent : Option NodeId} {nodes : Array Node} :
    ∀ (x : Xml.Node), GrowingTable nodes → (∀ p, parent = some p → HoldsElement nodes p) →
    Grafted nodes (graft inherited parent nodes x).1 [nodes.size] ∧
      (graft inherited parent nodes x).2 = nodes.size
  | .element tag children, hn, hp => by
    have hpush := grafted_push hn (.element (.ofTag inherited tag)) hp
    -- The element is in the table before its children are.
    have hself : HoldsElement (nodes.push ⟨.element (.ofTag inherited tag), parent, []⟩)
        nodes.size := ⟨_, _, Array.getElem?_push_size, rfl⟩
    have hall := grafted_graftAll tag.scope children hpush.growing hself
    rcases hout : graftAll tag.scope nodes.size
      (nodes.push ⟨.element (.ofTag inherited tag), parent, []⟩) children with ⟨out, ids⟩
    rw [hout] at hall
    rw [graft_element inherited parent nodes tag children hout]
    have hsize : nodes.size < out.size := by
      have := hall.size_le
      rw [Array.size_push] at this
      exact this
    have hlt : ∀ c ∈ ids, nodes.size < c ∧ c < out.size := by
      intro c hc
      have := hall.new c hc
      rw [Array.size_push] at this
      exact this
    refine ⟨⟨growingTable_setChildren hall.growing hlt, ?_, fun i hi => ?_, ?_⟩, rfl⟩
    · rw [Array.size_modify]
      exact Nat.le_of_lt hsize
    · rw [Array.getElem?_modify, if_neg (by omega),
        hall.kept i (by rw [Array.size_push]; omega), hpush.kept i hi]
    · intro id hid
      obtain rfl := List.mem_singleton.mp hid
      rw [Array.size_modify]
      exact ⟨Nat.le_refl _, hsize⟩
  | .text value, hn, hp => ⟨grafted_push hn (.text value) hp, rfl⟩
  | .comment value, hn, hp => ⟨grafted_push hn (.comment value) hp, rfl⟩
  | .instruction target value, hn, hp => ⟨grafted_push hn (.instruction target value) hp, rfl⟩

/-- Several nodes entered below an element. -/
theorem grafted_graftAll (inherited : Xml.Scope) {parent : NodeId} {nodes : Array Node} :
    ∀ (xs : List Xml.Node), GrowingTable nodes → HoldsElement nodes parent →
    Grafted nodes (graftAll inherited parent nodes xs).1 (graftAll inherited parent nodes xs).2
  | [], hn, _ => ⟨hn, Nat.le_refl _, fun _ _ => rfl, by simp [graftAll]⟩
  | x :: xs, hn, hp => by
    have hparent : ∀ p, some parent = some p → HoldsElement nodes p :=
      fun p h => Option.some_inj.mp h ▸ hp
    have hx := grafted_graft inherited x hn hparent
    rcases hout : graft inherited (some parent) nodes x with ⟨out, id⟩
    rw [hout] at hx
    obtain ⟨hx, rfl⟩ := hx
    have hxs := grafted_graftAll inherited xs hx.growing (hp.kept hx.kept)
    rcases hout' : graftAll inherited parent out xs with ⟨out', ids⟩
    rw [hout'] at hxs
    rw [graftAll_cons inherited parent nodes x xs hout hout']
    have hsize := hx.size_le
    have hsize' := hxs.size_le
    have hlt := (hx.new _ List.mem_cons_self).2
    refine ⟨hxs.growing, Nat.le_trans hsize hsize', fun i hi => ?_, fun id hmem => ?_⟩
    · have hi' : i < out.size := Nat.lt_of_lt_of_le hi hsize
      rw [hxs.kept i hi', hx.kept i hi]
    · rcases List.mem_cons.mp hmem with rfl | hmem
      · exact ⟨Nat.le_refl _, Nat.lt_of_lt_of_le hlt hsize'⟩
      · have hnew := hxs.new id hmem
        exact ⟨Nat.le_trans hsize hnew.1, hnew.2⟩

end

/-! ### Whole drawings -/

/-- A drawing in which children lie behind their parents. -/
def Growing (d : Drawing) : Prop := ∀ id c, c ∈ d.children id → id < c ∧ c < d.nodes.size

theorem HoldsElement.isElement {d : Drawing} {id : NodeId} (h : HoldsElement d.nodes id) :
    d.isElement id := by
  obtain ⟨⟨content, parent, children⟩, e, hnode, rfl⟩ := h
  have helement : d.element? id = some e := by
    rw [element?_eq, hnode]
    rfl
  rw [Drawing.isElement, helement]
  rfl

theorem GrowingTable.growing {d : Drawing} (h : GrowingTable d.nodes) : d.Growing := by
  intro id c hc
  unfold Drawing.children at hc
  split at hc
  · rename_i node hnode
    exact h.children hnode hc
  · simp at hc

theorem GrowingTable.parentsAreElements {d : Drawing} (h : GrowingTable d.nodes) :
    d.ParentsAreElements := by
  intro id p hp
  obtain ⟨node, hnode, hparent⟩ := Option.bind_eq_some_iff.mp hp
  exact (h.parents hnode hparent).isElement

/-- Outside every element, text is dropped and any other node is entered. -/
theorem nodes_outline_add (o : Outline) (x : Xml.Node) :
    (∃ value, x = .text value) ∧ (o.add x).nodes = o.nodes ∨
      (o.add x).nodes = (graft [] none o.nodes x).1 := by
  cases x with
  | element tag children => exact .inr rfl
  | text value => exact .inl ⟨⟨value, rfl⟩, rfl⟩
  | _ =>
    refine .inr ?_
    cases h : o.root.isSome <;> simp [Outline.add, Xml.Node.isElement, h]

theorem growingTable_outline_add {o : Outline} (ho : GrowingTable o.nodes) (x : Xml.Node) :
    GrowingTable (o.add x).nodes := by
  rcases nodes_outline_add o x with ⟨-, hsame⟩ | hgraft
  · rwa [hsame]
  · rw [hgraft]
    exact (grafted_graft [] x ho (by simp)).1.growing

theorem growingTable_foldl_add (xs : List Xml.Node) : ∀ {o : Outline}, GrowingTable o.nodes →
    GrowingTable (xs.foldl Outline.add o).nodes := by
  induction xs with
  | nil => exact fun ho => ho
  | cons x xs ih => exact fun ho => ih (growingTable_outline_add ho x)

/-- A drawing that was read is the outline of its document, in which there is an outermost
element. -/
theorem outline_ofDocument {xs : List Xml.Node} {d : Drawing} (h : ofDocument xs = .ok d) :
    let o := xs.foldl Outline.add ⟨#[], none, [], []⟩
    ∃ root, o.root = some root ∧ d = ⟨o.nodes, root, o.prologue, o.epilogue⟩ := by
  unfold ofDocument at h
  split at h
  · simp at h
  · simp only [] at h
    split at h
    · rename_i root hroot
      exact ⟨root, hroot, (Except.ok.inj h).symm⟩
    · simp at h

theorem growingTable_ofDocument {xs : List Xml.Node} {d : Drawing} (h : ofDocument xs = .ok d) :
    GrowingTable d.nodes := by
  obtain ⟨root, -, rfl⟩ := outline_ofDocument h
  exact growingTable_foldl_add xs growingTable_empty

theorem growingTable_ofString {text : String} {d : Drawing} (h : ofString text = .ok d) :
    GrowingTable d.nodes := by
  unfold ofString at h
  split at h
  · exact growingTable_ofDocument h
  · simp at h

/-- In a drawing that was read, children lie behind their parents. -/
theorem growing_ofString {text : String} {d : Drawing} (h : ofString text = .ok d) :
    d.Growing :=
  (growingTable_ofString h).growing

/-- In a drawing that was read, whatever hangs somewhere hangs below an element. -/
theorem parentsAreElements_ofString {text : String} {d : Drawing} (h : ofString text = .ok d) :
    d.ParentsAreElements :=
  (growingTable_ofString h).parentsAreElements

/-- A drawing with a cluster, a cluster inside it, and a placeholder edge of the inner one. -/
def nestedPair : Drawing where
  nodes := #[⟨.element ⟨"svg", [], []⟩, none, [1, 4, 7]⟩,
    ⟨.element ⟨"g", [], []⟩, some 0, [2]⟩, ⟨.element ⟨"g", [], []⟩, some 1, [3]⟩,
    ⟨.element ⟨"a", [], [("href", "m"), ("target", "t")]⟩, some 2, []⟩,
    ⟨.element ⟨"g", [], []⟩, some 0, [5]⟩, ⟨.element ⟨"g", [], []⟩, some 4, [6]⟩,
    ⟨.element ⟨"a", [], [("href", "m.n"), ("target", "t")]⟩, some 5, []⟩,
    ⟨.element ⟨"g", [], []⟩, some 0, [8]⟩, ⟨.element ⟨"g", [], []⟩, some 7, [9]⟩,
    ⟨.element ⟨"a", [], [("href", "not_m.n")]⟩, some 8, []⟩]
  root := 0
  prologue := []
  epilogue := []

/-- The drawing as text. -/
def nestedPairText : String :=
  "<svg><g><g><a href=\"m\" target=\"t\"/></g></g>" ++
    "<g><g><a href=\"m.n\" target=\"t\"/></g></g><g><g><a href=\"not_m.n\"/></g></g></svg>"

theorem ofString_nestedPair : ofString nestedPairText = .ok nestedPair :=
  eq_ok_of_toOption (by decide +kernel)

/-- A drawing with a cluster and a cluster inside it, each with a frame. -/
def framedPair : Drawing where
  nodes := #[⟨.element ⟨"svg", [], [("class", "x  x")]⟩, none, [1, 4, 7, 10]⟩,
    ⟨.element ⟨"g", [], [("class", "cluster")]⟩, some 0, [2]⟩,
    ⟨.element ⟨"title", [], []⟩, some 1, [3]⟩, ⟨.text "cluster_m", some 2, []⟩,
    ⟨.element ⟨"g", [], [("class", "cluster")]⟩, some 0, [5]⟩,
    ⟨.element ⟨"title", [], []⟩, some 4, [6]⟩, ⟨.text "cluster_n", some 5, []⟩,
    ⟨.element ⟨"g", [], []⟩, some 0, [8]⟩, ⟨.element ⟨"g", [], []⟩, some 7, [9]⟩,
    ⟨.element ⟨"a", [], [("href", "m"), ("target", "t")]⟩, some 8, []⟩,
    ⟨.element ⟨"g", [], []⟩, some 0, [11]⟩, ⟨.element ⟨"g", [], []⟩, some 10, [12]⟩,
    ⟨.element ⟨"a", [], [("href", "m.n"), ("target", "t")]⟩, some 11, []⟩]
  root := 0
  prologue := []
  epilogue := []

/-- The drawing as text. -/
def framedPairText : String :=
  "<svg class=\"x  x\"><g class=\"cluster\"><title>cluster_m</title></g>" ++
    "<g class=\"cluster\"><title>cluster_n</title></g>" ++
    "<g><g><a href=\"m\" target=\"t\"/></g></g>" ++
    "<g><g><a href=\"m.n\" target=\"t\"/></g></g></svg>"

theorem ofString_framedPair : ofString framedPairText = .ok framedPair :=
  eq_ok_of_toOption (by decide +kernel)

end GraphFolding.Drawing
