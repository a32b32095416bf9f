/-
Links of a table of nodes: children name their parent, and parents list their children.

* `Linked` — what a table holds from a place on: nodes that hang below each other, and a few
  topmost ones that hang below something given;
* `Linked.append` — such a table and what was entered behind it;
* `linked_graft` — one node of a document entered with all that stands in it;
* `linked_ofDocument` — a drawing that was read, whose outermost nodes are topmost ones.
-/
import GraphFolding.Proofs.Grafting
import Mathlib.Data.List.Nodup
namespace GraphFolding.Drawing

/-- Whether a node is an element. -/
def Holder (node : Node) : Prop := ∃ e, node.content = .element e

/-- What a table holds from `base` on: `tops` hang below `parent`, all else hangs below
something that is there too, and every list of children is the list of those that hang there. -/
structure Linked (base : NodeId) (nodes : Array Node) (tops : List NodeId)
    (parent : Option NodeId) : Prop where
  /-- Topmost nodes are new ones, each named once. -/
  tops_new : ∀ id ∈ tops, base ≤ id
  tops_nodup : tops.Nodup
  top : ∀ id ∈ tops, ∃ node, nodes[id]? = some node ∧ node.parent = parent
  inner : ∀ {id node}, base ≤ id → id ∉ tops → nodes[id]? = some node →
    ∃ p above, base ≤ p ∧ node.parent = some p ∧ nodes[p]? = some above ∧ id ∈ above.children
  nodup : ∀ {id node}, base ≤ id → nodes[id]? = some node → node.children.Nodup
  holder : ∀ {id node}, base ≤ id → nodes[id]? = some node → node.children ≠ [] → Holder node
  below : ∀ {id node}, base ≤ id → nodes[id]? = some node → ∀ c ∈ node.children,
    base ≤ c ∧ ∃ child, nodes[c]? = some child ∧ child.parent = some id

theorem getElem?_lt {nodes : Array Node} {id : NodeId} {node : Node}
    (h : nodes[id]? = some node) : id < nodes.size :=
  (Array.getElem?_eq_some_iff.mp h).1

/-- Nothing is entered yet. -/
theorem linked_nil (nodes : Array Node) (parent : Option NodeId) :
    Linked nodes.size nodes [] parent := by
  have hnone : ∀ {id : NodeId} {node : Node}, nodes.size ≤ id → ¬nodes[id]? = some node := by
    intro id node hid hnode
    exact absurd (getElem?_lt hnode) (Nat.not_lt_of_le hid)
  constructor
  · simp
  · exact List.nodup_nil
  · simp
  · intro id node hid _ hnode
    exact absurd hnode (hnone hid)
  · intro id node hid hnode
    exact absurd hnode (hnone hid)
  · intro id node hid hnode
    exact absurd hnode (hnone hid)
  · intro id node hid hnode
    exact absurd hnode (hnone hid)

/-- A leaf is entered. -/
theorem linked_push {nodes : Array Node} (content : NodeContent) (parent : Option NodeId) :
    Linked nodes.size (nodes.push ⟨content, parent, []⟩) [nodes.size] parent := by
  -- From the old end on, the leaf is all there is.
  have hleaf : ∀ {id : NodeId} {node : Node}, nodes.size ≤ id →
      (nodes.push ⟨content, parent, []⟩)[id]? = some node →
      id = nodes.size ∧ node = ⟨content, parent, []⟩ := by
    intro id node hid hnode
    have hlt := getElem?_lt hnode
    rw [Array.size_push] at hlt
    have heq : id = nodes.size := Nat.le_antisymm (Nat.le_of_lt_succ hlt) hid
    subst heq
    rw [Array.getElem?_push_size] at hnode
    exact ⟨rfl, (Option.some_inj.mp hnode).symm⟩
  constructor
  · intro id hid
    exact Nat.le_of_eq (List.mem_singleton.mp hid).symm
  · exact List.nodup_singleton _
  · intro id hid
    rw [List.mem_singleton.mp hid]
    exact ⟨_, Array.getElem?_push_size, rfl⟩
  · intro id node hid htop hnode
    exact absurd (List.mem_singleton.mpr (hleaf hid hnode).1) htop
  · intro id node hid hnode
    rw [(hleaf hid hnode).2]
    exact List.nodup_nil
  · intro id node hid hnode hne
    rw [(hleaf hid hnode).2] at hne
    exact absurd rfl hne
  · intro id node hid hnode c hc
    rw [(hleaf hid hnode).2] at hc
    simp at hc

/-- What was entered first, and what was entered behind it. -/
theorem Linked.append {base : NodeId} {nodes out : Array Node} {tops tops' : List NodeId}
    {parent : Option NodeId} (h : Linked base nodes tops parent)
    (h' : Linked nodes.size out tops' parent) (hbase : base ≤ nodes.size)
    (hkept : ∀ i < nodes.size, out[i]? = nodes[i]?) : Linked base out (tops ++ tops') parent := by
  have hlt : ∀ id ∈ tops, id < nodes.size := by
    intro id hid
    obtain ⟨node, hnode, -⟩ := h.top id hid
    exact getElem?_lt hnode
  -- An old entry stands where it stood.
  have hold : ∀ {id : NodeId} {node : Node}, nodes[id]? = some node → out[id]? = some node := by
    intro id node hnode
    rw [hkept id (getElem?_lt hnode), hnode]
  have hback : ∀ {id : NodeId} {node : Node}, id < nodes.size → out[id]? = some node →
      nodes[id]? = some node := by
    intro id node hid hnode
    rw [← hkept id hid, hnode]
  constructor
  · intro id hid
    rcases List.mem_append.mp hid with hid | hid
    · exact h.tops_new id hid
    · exact Nat.le_trans hbase (h'.tops_new id hid)
  · refine List.nodup_append.mpr ⟨h.tops_nodup, h'.tops_nodup, ?_⟩
    intro a ha b hb
    exact Nat.ne_of_lt (Nat.lt_of_lt_of_le (hlt a ha) (h'.tops_new b hb))
  · intro id hid
    rcases List.mem_append.mp hid with hid | hid
    · obtain ⟨node, hnode, hparent⟩ := h.top id hid
      exact ⟨node, hold hnode, hparent⟩
    · exact h'.top id hid
  · intro id node hid htop hnode
    rw [List.mem_append, not_or] at htop
    rcases Nat.lt_or_ge id nodes.size with hlow | hhigh
    · obtain ⟨p, above, hp, hparent, habove, hmem⟩ := h.inner hid htop.1 (hback hlow hnode)
      exact ⟨p, above, hp, hparent, hold habove, hmem⟩
    · obtain ⟨p, above, hp, hparent, habove, hmem⟩ := h'.inner hhigh htop.2 hnode
      exact ⟨p, above, Nat.le_trans hbase hp, hparent, habove, hmem⟩
  · intro id node hid hnode
    rcases Nat.lt_or_ge id nodes.size with hlow | hhigh
    · exact h.nodup hid (hback hlow hnode)
    · exact h'.nodup hhigh hnode
  · intro id node hid hnode
    rcases Nat.lt_or_ge id nodes.size with hlow | hhigh
    · exact h.holder hid (hback hlow hnode)
    · exact h'.holder hhigh hnode
  · intro id node hid hnode c hc
    rcases Nat.lt_or_ge id nodes.size with hlow | hhigh
    · obtain ⟨hle, child, hchild, hparent⟩ := h.below hid (hback hlow hnode) c hc
      exact ⟨hle, child, hold hchild, hparent⟩
    · obtain ⟨hle, child, hchild, hparent⟩ := h'.below hhigh hnode c hc
      exact ⟨Nat.le_trans hbase hle, child, hchild, hparent⟩

/-- An element closed over what was entered behind it. -/
theorem Linked.close {out : Array Node} {id : NodeId} {ids : List NodeId}
    (h : Linked (id + 1) out ids (some id)) {node : Node} (hnode : out[id]? = some node)
    (hholder : Holder node) :
    Linked id (out.modify id fun node => { node with children := ids }) [id] node.parent := by
  have hself : (out.modify id fun node => { node with children := ids })[id]? =
      some { node with children := ids } := by
    rw [Array.getElem?_modify, if_pos rfl, hnode]
    rfl
  have hother : ∀ {i : NodeId}, id < i →
      (out.modify id fun node => { node with children := ids })[i]? = out[i]? := by
    intro i hi
    rw [Array.getElem?_modify, if_neg (Nat.ne_of_lt hi)]
  -- An entry is the element itself, or one behind it.
  have hcases : ∀ {i : NodeId} {entry : Node}, id ≤ i →
      (out.modify id fun node => { node with children := ids })[i]? = some entry →
      (i = id ∧ entry = { node with children := ids }) ∨ (id < i ∧ out[i]? = some entry) := by
    intro i entry hi hentry
    rcases Nat.eq_or_lt_of_le hi with rfl | hlt
    · rw [hself] at hentry
      exact .inl ⟨rfl, (Option.some_inj.mp hentry).symm⟩
    · rw [hother hlt] at hentry
      exact .inr ⟨hlt, hentry⟩
  constructor
  · intro i hi
    exact Nat.le_of_eq (List.mem_singleton.mp hi).symm
  · exact List.nodup_singleton _
  · intro i hi
    rw [List.mem_singleton.mp hi]
    exact ⟨_, hself, rfl⟩
  · intro i entry hi htop hentry
    obtain ⟨rfl, -⟩ | ⟨hlt, hentry⟩ := hcases hi hentry
    · exact absurd (List.mem_singleton.mpr rfl) htop
    by_cases hids : i ∈ ids
    · obtain ⟨entry', hentry', hparent⟩ := h.top i hids
      obtain rfl : entry = entry' := Option.some_inj.mp (hentry.symm.trans hentry')
      exact ⟨id, _, Nat.le_refl id, hparent, hself, hids⟩
    · obtain ⟨p, above, hp, hparent, habove, hmem⟩ := h.inner hlt hids hentry
      exact ⟨p, above, Nat.le_of_succ_le hp, hparent, (hother hp).trans habove, hmem⟩
  · intro i entry hi hentry
    obtain ⟨-, rfl⟩ | ⟨hlt, hentry⟩ := hcases hi hentry
    · exact h.tops_nodup
    · exact h.nodup hlt hentry
  · intro i entry hi hentry hne
    obtain ⟨-, rfl⟩ | ⟨hlt, hentry⟩ := hcases hi hentry
    · exact hholder
    · exact h.holder hlt hentry hne
  · intro i entry hi hentry c hc
    obtain ⟨rfl, rfl⟩ | ⟨hlt, hentry⟩ := hcases hi hentry
    · obtain ⟨child, hchild, hparent⟩ := h.top c hc
      have hnew := h.tops_new c hc
      exact ⟨Nat.le_of_succ_le hnew, child, (hother hnew).trans hchild, hparent⟩
    · obtain ⟨hnew, child, hchild, hparent⟩ := h.below hlt hentry c hc
      exact ⟨Nat.le_of_succ_le hnew, child, (hother hnew).trans hchild, hparent⟩

mutual

/-- One node of a document entered, with all that stands in it. -/
theorem linked_graft (inherited : Xml.Scope) {parent : Option NodeId} {nodes : Array Node} :
    ∀ (x : Xml.Node), GrowingTable nodes → (∀ p, parent = some p → HoldsElement nodes p) →
    Linked nodes.size (graft inherited parent nodes x).1 [nodes.size] parent
  | .element tag children, hn, hp => by
    have hpush := grafted_push hn (.element (.ofTag inherited tag)) hp
    have hself : HoldsElement (nodes.push ⟨.element (.ofTag inherited tag), parent, []⟩)
        nodes.size := ⟨_, _, Array.getElem?_push_size, rfl⟩
    have hlinked := linked_graftAll tag.scope children hpush.growing hself
    have hgrafted := grafted_graftAll tag.scope children hpush.growing hself
    rcases hout : graftAll tag.scope nodes.size
      (nodes.push ⟨.element (.ofTag inherited tag), parent, []⟩) children with ⟨out, ids⟩
    rw [hout, Array.size_push] at hlinked
    rw [hout] at hgrafted
    rw [graft_element inherited parent nodes tag children hout]
    have hnode : out[nodes.size]? = some ⟨.element (.ofTag inherited tag), parent, []⟩ := by
      rw [hgrafted.kept nodes.size (by rw [Array.size_push]; exact Nat.lt_succ_self _),
        Array.getElem?_push_size]
    exact hlinked.close hnode ⟨_, rfl⟩
  | .text value, _, _ => linked_push (.text value) parent
  | .comment value, _, _ => linked_push (.comment value) parent
  | .instruction target value, _, _ => linked_push (.instruction target value) parent

/-- Several nodes entered below an element. -/
theorem linked_graftAll (inherited : Xml.Scope) {parent : NodeId} {nodes : Array Node} :
    ∀ (xs : List Xml.Node), GrowingTable nodes → HoldsElement nodes parent →
    Linked nodes.size (graftAll inherited parent nodes xs).1
      (graftAll inherited parent nodes xs).2 (some parent)
  | [], _, _ => linked_nil nodes (some parent)
  | x :: xs, hn, hp => by
    have hparent : ∀ p, some parent = some p → HoldsElement nodes p :=
      fun p h => Option.some_inj.mp h ▸ hp
    have hfirst := linked_graft inherited x hn hparent
    have hgrafted := grafted_graft inherited x hn hparent
    rcases hout : graft inherited (some parent) nodes x with ⟨out, id⟩
    rw [hout] at hfirst hgrafted
    obtain ⟨hgrafted, rfl⟩ := hgrafted
    have hp' := hp.kept hgrafted.kept
    have hmore := linked_graftAll inherited xs hgrafted.growing hp'
    have hall := grafted_graftAll inherited xs hgrafted.growing hp'
    rcases hout' : graftAll inherited parent out xs with ⟨out', ids⟩
    rw [hout'] at hmore hall
    rw [graftAll_cons inherited parent nodes x xs hout hout']
    exact hfirst.append hmore hgrafted.size_le hall.kept

end

/-! ### Whole drawings -/

/-- A drawing under construction whose outermost nodes are topmost ones. -/
structure Outline.Linked (o : Outline) (tops : List NodeId) : Prop where
  growing : GrowingTable o.nodes
  linked : Drawing.Linked 0 o.nodes tops none
  root : ∀ id ∈ o.root, id ∈ tops
  prologue : ∀ id ∈ o.prologue, id ∈ tops
  epilogue : ∀ id ∈ o.epilogue, id ∈ tops

theorem Outline.Linked.add {o : Outline} {tops : List NodeId} (ho : o.Linked tops)
    (x : Xml.Node) : ∃ tops', (o.add x).Linked tops' := by
  have hnone : ∀ p, (none : Option NodeId) = some p → HoldsElement o.nodes p := by simp
  obtain ⟨hgrafted, hid⟩ := grafted_graft [] x ho.growing hnone
  have hlinked := ho.linked.append (linked_graft [] x ho.growing hnone) (Nat.zero_le _)
    hgrafted.kept
  have hmem : ∀ id ∈ tops, id ∈ tops ++ [o.nodes.size] :=
    fun id hid => List.mem_append_left _ hid
  have hnew : (graft [] none o.nodes x).2 ∈ tops ++ [o.nodes.size] := by
    rw [hid]
    exact List.mem_append_right _ (List.mem_singleton.mpr rfl)
  unfold Outline.add
  split
  · exact ⟨tops, ho⟩
  simp only []
  refine ⟨tops ++ [o.nodes.size], ?_⟩
  split
  · refine ⟨hgrafted.growing, hlinked, ?_, fun id hid => hmem id (ho.prologue id hid),
      fun id hid => hmem id (ho.epilogue id hid)⟩
    intro id hid
    rwa [← Option.some_inj.mp hid]
  split
  · refine ⟨hgrafted.growing, hlinked, fun id hid => hmem id (ho.root id hid),
      fun id hid => hmem id (ho.prologue id hid), ?_⟩
    intro id hid
    rcases List.mem_append.mp hid with hid | hid
    · exact hmem id (ho.epilogue id hid)
    · rwa [List.mem_singleton.mp hid]
  · refine ⟨hgrafted.growing, hlinked, fun id hid => hmem id (ho.root id hid), ?_,
      fun id hid => hmem id (ho.epilogue id hid)⟩
    intro id hid
    rcases List.mem_append.mp hid with hid | hid
    · exact hmem id (ho.prologue id hid)
    · rwa [List.mem_singleton.mp hid]

theorem Outline.Linked.foldl_add (xs : List Xml.Node) : ∀ {o : Outline} {tops : List NodeId},
    o.Linked tops → ∃ tops', (xs.foldl Outline.add o).Linked tops' := by
  induction xs with
  | nil =>
    intro o tops ho
    exact ⟨tops, ho⟩
  | cons x xs ih =>
    intro o tops ho
    obtain ⟨tops', ho'⟩ := ho.add x
    exact ih ho'

/-- In a drawing that was read the links agree, and the outermost nodes are topmost ones. -/
theorem linked_ofDocument {xs : List Xml.Node} {d : Drawing} (h : ofDocument xs = .ok d) :
    ∃ tops, Linked 0 d.nodes tops none ∧
      ∀ id ∈ d.root :: (d.prologue ++ d.epilogue), id ∈ tops := by
  have hempty : Outline.Linked ⟨#[], none, [], []⟩ [] :=
    ⟨growingTable_empty, linked_nil #[] none, by simp, by simp, by simp⟩
  obtain ⟨tops, ho⟩ := hempty.foldl_add xs
  obtain ⟨root, hroot, rfl⟩ := outline_ofDocument h
  refine ⟨tops, ho.linked, fun id hid => ?_⟩
  rcases List.mem_cons.mp hid with rfl | hid
  · exact ho.root _ hroot
  · rcases List.mem_append.mp hid with hid | hid
    · exact ho.prologue id hid
    · exact ho.epilogue id hid

end GraphFolding.Drawing
