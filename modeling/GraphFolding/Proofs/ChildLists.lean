/-
Drawings whose lists of children form a forest, whatever the links upwards say.

* `Drawing.Below` — what hangs below a node, the node itself included;
* `depthAtMost_pred_of_acyclic` — no node lies as many levels deep as there are nodes;
* `Drawing.ChildForest` — no node hangs below itself, and none is listed twice;
* `ChildForest.mem_descendants_iff`, `ChildForest.nodup_descendants` — a walk from a node meets
  what lies below it, each node once;
* `Drawing.Yields`, `ChildForest.yields_descendants` — the walk taken step by step, until its
  stack is empty.
-/
import GraphFolding.Proofs.DocumentOrder
import Mathlib.Data.List.Chain
import Mathlib.Data.List.Nodup
import Mathlib.Logic.Relation
import Mathlib.Order.WellFounded
namespace GraphFolding.Drawing

/-- Whether a node hangs below another one, or is that node. -/
def Below (d : Drawing) : NodeId → NodeId → Prop :=
  Relation.ReflTransGen fun id c => c ∈ d.children id

variable {d : Drawing}

/-! ### Depth -/

/-- A path of nodes, each hanging below the one before it. -/
def IsPath (d : Drawing) (path : List NodeId) : Prop := path.IsChain fun id c => c ∈ d.children id

theorem exists_path_of_not_depthAtMost {n : Nat} : ∀ {id : NodeId}, ¬d.DepthAtMost n id →
    ∃ path : List NodeId, path.length = n + 1 ∧ d.IsPath (id :: path) := by
  induction n with
  | zero =>
    intro id h
    obtain ⟨c, more, hchildren⟩ := List.exists_cons_of_ne_nil h
    refine ⟨[c], rfl, List.isChain_cons_cons.mpr ⟨?_, List.isChain_singleton c⟩⟩
    rw [hchildren]
    exact List.mem_cons_self
  | succ n ih =>
    intro id h
    have hdeep : ∃ c ∈ d.children id, ¬d.DepthAtMost n c := by
      by_contra hno
      refine h fun c hc => ?_
      by_contra hn
      exact hno ⟨c, hc, hn⟩
    obtain ⟨c, hc, hn⟩ := hdeep
    obtain ⟨path, hlength, hpath⟩ := ih hn
    refine ⟨c :: path, by rw [List.length_cons, hlength], ?_⟩
    exact List.isChain_cons_cons.mpr ⟨hc, hpath⟩

section Acyclic

variable (hacyclic : WellFounded fun c id => c ∈ d.children id)
include hacyclic

/-- No node lies below itself. -/
theorem not_transGen_self (id : NodeId) :
    ¬Relation.TransGen (fun id c => c ∈ d.children id) id id := by
  intro h
  exact hacyclic.transGen.irrefl.irrefl id (Relation.transGen_swap.mp h)

/-- No node lies as many levels deep as there are nodes. -/
theorem depthAtMost_pred_of_acyclic (hvalid : ∀ id, ∀ c ∈ d.children id, c < d.nodes.size)
    {id : NodeId} (hid : id < d.nodes.size) : d.DepthAtMost (d.nodes.size - 1) id := by
  by_contra hdeep
  obtain ⟨path, hlength, hpath⟩ := exists_path_of_not_depthAtMost hdeep
  -- A path goes down, so it meets no node twice.
  have hdown : (id :: path).Pairwise (Relation.TransGen fun id c => c ∈ d.children id) :=
    List.isChain_iff_pairwise.mp (hpath.imp fun _ _ h => Relation.TransGen.single h)
  have hnodup : (id :: path).Nodup := by
    refine hdown.imp fun {a b} hab heq => ?_
    exact not_transGen_self hacyclic a (heq ▸ hab)
  have hrange : id :: path ⊆ List.range d.nodes.size := by
    intro c hc
    rw [List.mem_range]
    rcases List.mem_cons.mp hc with rfl | hc
    · exact hid
    · obtain ⟨p, -, hp⟩ := Relation.TransGen.tail'_iff.mp ((List.pairwise_cons.mp hdown).1 c hc)
      exact hvalid p c hp
  have hle := hnodup.length_le_of_subset hrange
  rw [List.length_cons, hlength, List.length_range] at hle
  omega

theorem depthAtMost_of_acyclic (hvalid : ∀ id, ∀ c ∈ d.children id, c < d.nodes.size)
    (id : NodeId) : d.DepthAtMost d.nodes.size id := by
  by_cases hid : id < d.nodes.size
  · exact (depthAtMost_pred_of_acyclic hacyclic hvalid hid).mono (Nat.sub_le ..)
  · have hleaf : d.DepthAtMost 0 id := children_eq_nil_of_size_le (Nat.le_of_not_lt hid)
    exact hleaf.mono (Nat.zero_le _)

end Acyclic

theorem below_of_mem_preorderWithin {n : Nat} : ∀ {id x : NodeId},
    x ∈ d.preorderWithin n id → d.Below id x := by
  induction n with
  | zero =>
    intro id x h
    rw [List.mem_singleton.mp h]
    exact .refl
  | succ n ih =>
    intro id x h
    rw [preorderWithin, List.mem_cons, List.mem_flatMap] at h
    rcases h with rfl | ⟨c, hc, hx⟩
    · exact .refl
    · exact .head hc (ih hx)

/-- With a depth that is enough, all is met that lies below a node. -/
theorem mem_preorderWithin_iff {n : Nat} {id x : NodeId} (h : d.DepthAtMost n id) :
    x ∈ d.preorderWithin n id ↔ d.Below id x := by
  refine ⟨below_of_mem_preorderWithin, fun hbelow => ?_⟩
  -- From `x` upwards: what a child meets is met by the node that it hangs below.
  induction hbelow using Relation.ReflTransGen.head_induction_on with
  | refl =>
    rw [preorderWithin_eq_cons h]
    exact List.mem_cons_self
  | head hc _ ih =>
    rw [preorderWithin_eq_cons h]
    refine List.mem_cons_of_mem _ (List.mem_flatMap.mpr ⟨_, hc, ih ?_⟩)
    exact (h.of_mem hc).mono (Nat.sub_le n 1)

/-! ### Forests -/

/-- A drawing whose lists of children form a forest: no node hangs below itself, what is listed
is a node of the drawing, listed once and in one place only, and only elements have children, as
nothing else is ever given any. -/
structure ChildForest (d : Drawing) : Prop where
  acyclic : WellFounded fun c id => c ∈ d.children id
  valid : ∀ id, ∀ c ∈ d.children id, c < d.nodes.size
  nodup : ∀ id, (d.children id).Nodup
  unique : ∀ {a b c}, c ∈ d.children a → c ∈ d.children b → a = b
  elements : ∀ id, d.children id ≠ [] → (d.element? id).isSome = true

namespace ChildForest

variable (hd : d.ChildForest)
include hd

theorem depthAtMost (id : NodeId) : d.DepthAtMost d.nodes.size id :=
  depthAtMost_of_acyclic hd.acyclic hd.valid id

/-- Of two nodes above one node, one is above the other. -/
theorem below_or_below {a b x : NodeId} (ha : d.Below a x) (hb : d.Below b x) :
    d.Below a b ∨ d.Below b a := by
  have hunique : Relator.RightUnique (Function.swap fun id c => c ∈ d.children id) :=
    fun _ _ _ h h' => hd.unique h h'
  rw [Below, ← Relation.reflTransGen_swap] at ha hb
  rcases ha.total_of_right_unique hunique hb with h | h
  · exact .inr (Relation.reflTransGen_swap.mp h)
  · exact .inl (Relation.reflTransGen_swap.mp h)

theorem not_below {id c : NodeId} (hc : c ∈ d.children id) : ¬d.Below c id := fun h =>
  not_transGen_self hd.acyclic id (Relation.TransGen.head' hc h)

/-- What lies below a child of a node lies below no other one. -/
theorem eq_of_below {id a b x : NodeId} (ha : a ∈ d.children id) (hb : b ∈ d.children id)
    (hax : d.Below a x) (hbx : d.Below b x) : a = b := by
  have hsibling : ∀ {a b}, a ∈ d.children id → b ∈ d.children id → d.Below a b → b = a := by
    intro a b ha hb hab
    rcases Relation.ReflTransGen.cases_tail hab with heq | ⟨p, hap, hpb⟩
    · exact heq
    · -- The later one would hang below the earlier one, and so would `id`.
      obtain rfl : p = id := hd.unique hpb hb
      exact absurd hap (hd.not_below ha)
  rcases hd.below_or_below hax hbx with h | h
  · exact (hsibling ha hb h).symm
  · exact hsibling hb ha h

theorem nodup_preorderWithin (n : Nat) : ∀ id : NodeId, (d.preorderWithin n id).Nodup := by
  induction n with
  | zero => exact fun id => List.nodup_singleton id
  | succ n ih =>
    intro id
    rw [preorderWithin, List.nodup_cons, List.nodup_flatMap]
    refine ⟨fun hid => ?_, fun c _ => ih c, ?_⟩
    · -- Otherwise the node would hang below a child of its own.
      obtain ⟨c, hc, hid⟩ := List.mem_flatMap.mp hid
      exact hd.not_below hc (below_of_mem_preorderWithin hid)
    · refine (List.Pairwise.and_mem.mp (hd.nodup id)).imp ?_
      rintro a b ⟨ha, hb, hne⟩ x hxa hxb
      exact hne (hd.eq_of_below ha hb (below_of_mem_preorderWithin hxa)
        (below_of_mem_preorderWithin hxb))

theorem descendants_eq (id : NodeId) : d.descendants id = d.preorder id :=
  descendants_eq_preorder (hd.depthAtMost id)

/-- A walk from a node meets what lies at and below it. -/
theorem mem_descendants_iff {id x : NodeId} : x ∈ d.descendants id ↔ d.Below id x := by
  rw [hd.descendants_eq]
  exact mem_preorderWithin_iff (hd.depthAtMost id)

/-- A walk meets no node twice. -/
theorem nodup_descendants (id : NodeId) : (d.descendants id).Nodup := by
  rw [hd.descendants_eq]
  exact hd.nodup_preorderWithin d.nodes.size id

/-- A walk is over when its fuel is; more fuel finds nothing more. -/
theorem walk_eq_descendants {id : NodeId} {fuel : Nat} (h : d.size id ≤ fuel) :
    d.walk fuel [id] = d.descendants id := by
  have hstack : ∀ i ∈ [id], d.DepthAtMost d.nodes.size i := fun i _ => hd.depthAtMost i
  rw [hd.descendants_eq, walk_eq hstack, List.flatMap_singleton]
  · rfl
  · rw [List.flatMap_singleton, ← sizeWithin_eq_length]
    exact h

end ChildForest

/-! ### Walks step by step -/

/-- One step of a walk with a stack whose top is its end, unless the stack is empty: the node on
top is taken off, and its children are put on, the first one last. -/
def visit? (d : Drawing) (stack : List NodeId) : Option (NodeId × List NodeId) :=
  stack.getLast?.map fun id => (id, stack.dropLast ++ (d.children id).reverse)

/-- A walk from a stack visits some nodes, one after the other, and then its stack is empty. -/
inductive Yields (d : Drawing) : List NodeId → List NodeId → Prop
  | finished {stack : List NodeId} (h : d.visit? stack = none) : Yields d stack []
  | visit {stack rest : List NodeId} {id : NodeId} {ids : List NodeId}
      (h : d.visit? stack = some (id, rest)) (hrest : Yields d rest ids) : Yields d stack (id :: ids)

/-- There is only one thing a walk can do. -/
theorem Yields.unique {stack ids ids' : List NodeId} (h : d.Yields stack ids)
    (h' : d.Yields stack ids') : ids = ids' := by
  induction h generalizing ids' with
  | finished h =>
    cases h' with
    | finished => rfl
    | visit h' => simp [h] at h'
  | visit h _ ih =>
    cases h' with
    | finished h' => simp [h] at h'
    | visit h' hrest' =>
      rw [h, Option.some_inj, Prod.mk.injEq] at h'
      obtain ⟨rfl, rfl⟩ := h'
      rw [ih hrest']

/-- A walk that ends before its fuel does is a whole one. -/
theorem yields_walk {fuel : Nat} : ∀ {stack : List NodeId}, (d.walk fuel stack).length < fuel →
    d.Yields stack.reverse (d.walk fuel stack) := by
  induction fuel with
  | zero => exact fun h => absurd h (Nat.not_lt_zero _)
  | succ fuel ih =>
    intro stack h
    -- A walk keeps the top of its stack at the head of a list.
    rcases stack with _ | ⟨id, stack⟩
    · exact .finished rfl
    rw [walk] at h ⊢
    have hstep : d.visit? (id :: stack).reverse =
        some (id, (d.children id ++ stack).reverse) := by
      simp [visit?]
    exact .visit hstep (ih (Nat.lt_of_succ_lt_succ h))

/-- The walk from a node ends, and the nodes that it visits are the descendants of the node. -/
theorem ChildForest.yields_descendants (hd : d.ChildForest) (id : NodeId) :
    d.Yields [id] (d.descendants id) := by
  have hfuel := hd.walk_eq_descendants (Nat.le_succ (d.size id))
  have hlength : (d.descendants id).length = d.size id := by
    rw [hd.descendants_eq]
    exact (sizeWithin_eq_length d id).symm
  have hends : (d.walk (d.size id + 1) [id]).length < d.size id + 1 := by
    rw [hfuel, hlength]
    exact Nat.lt_succ_self _
  have hyields := yields_walk hends
  rw [hfuel, List.reverse_singleton] at hyields
  exact hyields

end GraphFolding.Drawing
