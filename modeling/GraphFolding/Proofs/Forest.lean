/-
Drawings whose links form a forest, read in both directions.

* `Drawing.WellLinked` — a forest in which every node that hangs somewhere is listed there,
  and listed once;
* `depthAtMost_of_isForest` — no node lies deeper than there are nodes;
* `WellLinked.mem_descendants_iff`, `WellLinked.nodup_descendants` — a walk from a node meets
  what lies below it, each node once;
* `WellLinked.ancestor?_eq_none` — a walk upwards ends;
* `wellLinked_ofString` — a drawing that was read is well linked.
-/
import GraphFolding.Proofs.ChildLists
import GraphFolding.Proofs.Holding
import GraphFolding.Proofs.LinkedTables
namespace GraphFolding.Drawing

/-- A forest in which every node that hangs somewhere is listed there, and listed once. -/
structure WellLinked (d : Drawing) : Prop extends d.IsForest where
  listed : ∀ {id p}, d.parent? id = some p → id ∈ d.children p
  nodup : ∀ id, (d.children id).Nodup

variable {d : Drawing}

/-! ### Ancestors -/

theorem ancestor?_add (d : Drawing) (m n : Nat) : ∀ (id : NodeId),
    d.ancestor? id (m + n) = (d.ancestor? id m).bind (d.ancestor? · n) := by
  induction m with
  | zero =>
    intro id
    rw [Nat.zero_add]
    rfl
  | succ m ih =>
    intro id
    rw [Nat.succ_add, ancestor?, ancestor?]
    rcases d.parent? id with _ | p
    · rfl
    · exact ih p

theorem ancestor?_of_parent? {id p : NodeId} (h : d.parent? id = some p) (n : Nat) :
    d.ancestor? id (n + 1) = d.ancestor? p n := by
  rw [ancestor?, h]
  rfl

theorem ancestor?_succ_of_eq_some {id a p : NodeId} {n : Nat} (h : d.ancestor? id n = some a)
    (hp : d.parent? a = some p) : d.ancestor? id (n + 1) = some p := by
  rw [ancestor?_add, h]
  exact ancestor?_of_parent? hp 0

/-- The last step upwards leads from a child. -/
theorem exists_of_ancestor?_succ {id a : NodeId} {n : Nat} (h : d.ancestor? id (n + 1) = some a) :
    ∃ c, d.ancestor? id n = some c ∧ d.parent? c = some a := by
  rw [ancestor?_add] at h
  obtain ⟨c, hc, hca⟩ := Option.bind_eq_some_iff.mp h
  refine ⟨c, hc, ?_⟩
  rcases hp : d.parent? c with _ | p
  · rw [ancestor?, hp] at hca
    simp at hca
  · rw [ancestor?_of_parent? hp] at hca
    exact hca

/-- In a forest no node lies deeper than there are nodes. -/
theorem depthAtMost_of_isForest (hd : d.IsForest) (id : NodeId) :
    d.DepthAtMost d.nodes.size id :=
  depthAtMost_of_acyclic hd.acyclic (fun id c hc => (hd.linked id c hc).1) id

/-! ### Well-linked drawings -/

theorem lt_of_parent? {id p : NodeId} (h : d.parent? id = some p) : id < d.nodes.size := by
  obtain ⟨node, hnode, -⟩ := Option.bind_eq_some_iff.mp h
  exact getElem?_lt hnode

theorem lt_of_mem_children {id c : NodeId} (h : c ∈ d.children id) : id < d.nodes.size := by
  by_contra hge
  rw [children_eq_nil_of_size_le (Nat.le_of_not_lt hge)] at h
  exact List.not_mem_nil h

namespace WellLinked

variable (hd : d.WellLinked)
include hd

theorem mem_children_iff {id c : NodeId} : c ∈ d.children id ↔ d.parent? c = some id := by
  constructor
  · intro hc
    exact (hd.linked id c hc).2
  · exact hd.listed

theorem parent_lt {id p : NodeId} (h : d.parent? id = some p) : p < d.nodes.size :=
  lt_of_mem_children (hd.listed h)

theorem ancestor_lt {id a : NodeId} (hid : id < d.nodes.size) {n : Nat}
    (h : d.ancestor? id n = some a) : a < d.nodes.size := by
  cases n with
  | zero => exact Option.some_inj.mp h ▸ hid
  | succ n =>
    obtain ⟨c, -, hp⟩ := exists_of_ancestor?_succ h
    exact hd.parent_lt hp

/-- Every child is listed where it hangs, once, and nowhere else. -/
theorem count_children (id c : NodeId) :
    (d.children id).count c = if d.parent? c = some id then 1 else 0 := by
  split
  · rename_i h
    exact List.count_eq_one_of_mem (hd.nodup id) (hd.listed h)
  · rename_i h
    exact List.count_eq_zero.mpr fun hc => h (hd.mem_children_iff.mp hc)

/-- What lies below a node is what the node is found above. -/
theorem below_iff {id x : NodeId} : d.Below id x ↔ ∃ k, d.ancestor? x k = some id := by
  constructor
  · intro h
    induction h using Relation.ReflTransGen.head_induction_on with
    | refl => exact ⟨0, rfl⟩
    | head hc _ ih =>
      obtain ⟨k, hk⟩ := ih
      exact ⟨k + 1, ancestor?_succ_of_eq_some hk (hd.mem_children_iff.mp hc)⟩
  · rintro ⟨k, hk⟩
    induction k generalizing id with
    | zero => exact Option.some_inj.mp hk ▸ .refl
    | succ k ih =>
      obtain ⟨c, hc, hp⟩ := exists_of_ancestor?_succ hk
      exact .head (hd.listed hp) (ih hc)

theorem childForest : d.ChildForest where
  acyclic := hd.acyclic
  valid id c hc := (hd.linked id c hc).1
  nodup := hd.nodup
  unique ha hb := Option.some_inj.mp
    ((hd.mem_children_iff.mp ha).symm.trans (hd.mem_children_iff.mp hb))
  elements := hd.elements

theorem descendants_eq (id : NodeId) : d.descendants id = d.preorder id :=
  hd.childForest.descendants_eq id

/-- A walk from a node meets what lies at and below it. -/
theorem mem_descendants_iff {id x : NodeId} :
    x ∈ d.descendants id ↔ ∃ k, d.ancestor? x k = some id :=
  hd.childForest.mem_descendants_iff.trans hd.below_iff

/-- A walk meets no node twice. -/
theorem nodup_descendants (id : NodeId) : (d.descendants id).Nodup :=
  hd.childForest.nodup_descendants id

/-- A walk is over when its fuel is; more fuel finds nothing more. -/
theorem walk_eq_descendants {id : NodeId} {fuel : Nat} (h : d.size id ≤ fuel) :
    d.walk fuel [id] = d.descendants id :=
  hd.childForest.walk_eq_descendants h

/-- A node lies no more levels below another one than there are levels. -/
theorem depthAtMost_of_ancestor? {depth : Nat} {a : NodeId} (h : d.DepthAtMost depth a) {n : Nat} :
    ∀ {id : NodeId}, d.ancestor? id n = some a → n ≤ depth ∧ d.DepthAtMost (depth - n) id := by
  induction n with
  | zero =>
    intro id hid
    exact ⟨Nat.zero_le depth, Option.some_inj.mp hid ▸ h⟩
  | succ n ih =>
    intro id hid
    rcases hp : d.parent? id with _ | p
    · rw [ancestor?, hp] at hid
      simp at hid
    rw [ancestor?_of_parent? hp] at hid
    obtain ⟨hle, hdepth⟩ := ih hid
    have hmem := hd.listed hp
    refine ⟨?_, hdepth.of_mem hmem⟩
    rcases Nat.eq_or_lt_of_le hle with heq | hlt
    · rw [heq, Nat.sub_self, DepthAtMost] at hdepth
      simp [hdepth] at hmem
    · exact hlt

/-- A walk upwards ends. -/
theorem ancestor?_eq_none (id : NodeId) : d.ancestor? id (d.nodes.size + 1) = none := by
  rcases h : d.ancestor? id (d.nodes.size + 1) with _ | a
  · rfl
  · have hle := (hd.depthAtMost_of_ancestor? (depthAtMost_of_isForest hd.toIsForest a) h).1
    exact absurd hle (Nat.not_succ_le_self _)

end WellLinked

/-! ### Drawings that were read -/

theorem Growing.acyclic (hd : d.Growing) : WellFounded fun c id => c ∈ d.children id := by
  -- What lies behind a node in the table comes to an end.
  refine Subrelation.wf ?_ (measure fun id => d.nodes.size - id).wf
  intro c id hc
  obtain ⟨hlt, hsize⟩ := hd id c hc
  exact Nat.sub_lt_sub_left (Nat.lt_trans hlt hsize) hlt

theorem children_of_getElem? {id : NodeId} {node : Node} (h : d.nodes[id]? = some node) :
    d.children id = node.children := by
  rw [children, h]

theorem parent?_of_getElem? {id : NodeId} {node : Node} (h : d.nodes[id]? = some node) :
    d.parent? id = node.parent := by
  rw [parent?, h]
  rfl

theorem exists_node_of_mem_children {id c : NodeId} (h : c ∈ d.children id) :
    ∃ node, d.nodes[id]? = some node ∧ c ∈ node.children := by
  rcases hnode : d.nodes[id]? with _ | node
  · simp [children, hnode] at h
  · exact ⟨node, rfl, children_of_getElem? hnode ▸ h⟩

theorem wellLinked_of_linked {tops : List NodeId} (hd : d.Growing)
    (hlinked : Linked 0 d.nodes tops none)
    (houter : ∀ id ∈ d.root :: (d.prologue ++ d.epilogue), id ∈ tops) : d.WellLinked where
  acyclic := hd.acyclic
  linked := by
    intro id c hc
    obtain ⟨node, hnode, hmem⟩ := exists_node_of_mem_children hc
    obtain ⟨-, child, hchild, hparent⟩ := hlinked.below (Nat.zero_le id) hnode c hmem
    exact ⟨getElem?_lt hchild, (parent?_of_getElem? hchild).trans hparent⟩
  elements := by
    intro id hne
    obtain ⟨c, more, hlist⟩ := List.exists_cons_of_ne_nil hne
    obtain ⟨node, hnode, hmem⟩ := exists_node_of_mem_children (hlist ▸ List.mem_cons_self)
    obtain ⟨e, he⟩ := hlinked.holder (Nat.zero_le id) hnode (List.ne_nil_of_mem hmem)
    exact HoldsElement.isElement ⟨node, e, hnode, he⟩
  outermost := by
    intro id hid
    obtain ⟨node, hnode, hparent⟩ := hlinked.top id (houter id hid)
    exact ⟨getElem?_lt hnode, (parent?_of_getElem? hnode).trans hparent⟩
  listed := by
    intro id p hp
    obtain ⟨node, hnode, hparent⟩ := Option.bind_eq_some_iff.mp hp
    by_cases htop : id ∈ tops
    · obtain ⟨top, htop, hnone⟩ := hlinked.top id htop
      rw [hnode] at htop
      rw [Option.some_inj.mp htop, hnone] at hparent
      simp at hparent
    · obtain ⟨above, node', -, habove, hnode', hmem⟩ :=
        hlinked.inner (Nat.zero_le id) htop hnode
      obtain rfl : above = p := Option.some_inj.mp (habove.symm.trans hparent)
      rwa [children_of_getElem? hnode']
  nodup := by
    intro id
    rcases hnode : d.nodes[id]? with _ | node
    · rw [children, hnode]
      exact List.nodup_nil
    · rw [children_of_getElem? hnode]
      exact hlinked.nodup (Nat.zero_le id) hnode

/-- A drawing that was read is well linked. -/
theorem wellLinked_ofDocument {xs : List Xml.Node} (h : ofDocument xs = .ok d) : d.WellLinked := by
  obtain ⟨tops, hlinked, houter⟩ := linked_ofDocument h
  exact wellLinked_of_linked (growingTable_ofDocument h).growing hlinked houter

theorem wellLinked_ofString {text : String} (h : ofString text = .ok d) : d.WellLinked := by
  unfold ofString at h
  split at h
  · exact wellLinked_ofDocument h
  · simp at h

end GraphFolding.Drawing
