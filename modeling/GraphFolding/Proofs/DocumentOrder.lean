/-
Document order: the walk with a stack meets what the recursion over the tree meets.

* `Drawing.DepthAtMost` — how deep the nodes below a node lie;
* `Drawing.preorder` — a node, then what is below its children, one child after the other;
* `walk_eq`, `descendants_eq_preorder` — a walk with enough fuel, and the walk as it is
  done;
* `Growing.depthAtMost` — where children lie behind their parents, no node lies deeper than
  there are nodes;
* `filter_preorderWithin` — new nodes do not change the order in which old ones are met.
-/
import GraphFolding.Proofs.Grafting
namespace GraphFolding.Drawing

/-- Nothing lies more than a number of levels below a node. -/
def DepthAtMost (d : Drawing) : Nat → NodeId → Prop
  | 0, id => d.children id = []
  | depth + 1, id => ∀ c ∈ d.children id, d.DepthAtMost depth c

/-- A node and what is below it in document order, down to a depth. -/
def preorderWithin (d : Drawing) : Nat → NodeId → List NodeId
  | 0, id => [id]
  | depth + 1, id => id :: (d.children id).flatMap (d.preorderWithin depth)

/-- A node and what is below it in document order. -/
def preorder (d : Drawing) (id : NodeId) : List NodeId := d.preorderWithin d.nodes.size id

variable {d : Drawing}

theorem DepthAtMost.of_mem {depth : Nat} {id c : NodeId} (h : d.DepthAtMost depth id)
    (hc : c ∈ d.children id) : d.DepthAtMost (depth - 1) c := by
  cases depth with
  | zero =>
    rw [DepthAtMost] at h
    simp [h] at hc
  | succ depth => exact h c hc

theorem DepthAtMost.succ {depth : Nat} : ∀ {id : NodeId}, d.DepthAtMost depth id →
    d.DepthAtMost (depth + 1) id := by
  induction depth with
  | zero =>
    intro id h c hc
    rw [DepthAtMost] at h
    simp [h] at hc
  | succ depth ih => exact fun h c hc => ih (h c hc)

theorem DepthAtMost.mono {m n : Nat} (hmn : m ≤ n) {id : NodeId} (h : d.DepthAtMost m id) :
    d.DepthAtMost n id := by
  induction hmn with
  | refl => exact h
  | step _ ih => exact ih.succ

/-- A depth that is enough gives the whole tree, whichever it is. -/
theorem preorderWithin_eq {m : Nat} : ∀ {n : Nat} {id : NodeId}, m ≤ n →
    d.DepthAtMost m id → d.preorderWithin n id = d.preorderWithin m id := by
  induction m with
  | zero =>
    intro n id _ h
    rw [DepthAtMost] at h
    cases n with
    | zero => rfl
    | succ n => simp [preorderWithin, h]
  | succ m ih =>
    intro n id hmn h
    obtain ⟨n, rfl⟩ : ∃ k, n = k + 1 := ⟨n - 1, by omega⟩
    rw [preorderWithin, preorderWithin]
    rw [List.flatMap_def, List.flatMap_def,
      List.map_congr_left fun c hc => ih (Nat.le_of_succ_le_succ hmn) (h c hc)]

theorem preorderWithin_eq_singleton {n : Nat} {id : NodeId} (h : d.children id = []) :
    d.preorderWithin n id = [id] := by
  cases n with
  | zero => rfl
  | succ n => rw [preorderWithin, h, List.flatMap_nil]

/-- With a depth that is enough, a node comes first and then what is below its children. -/
theorem preorderWithin_eq_cons {n : Nat} {id : NodeId} (h : d.DepthAtMost n id) :
    d.preorderWithin n id = id :: (d.children id).flatMap (d.preorderWithin n) := by
  rw [← preorderWithin_eq (Nat.le_succ n) h, preorderWithin]

theorem sizeWithin_eq_length (d : Drawing) {n : Nat} : ∀ (id : NodeId),
    d.sizeWithin n id = (d.preorderWithin n id).length := by
  induction n with
  | zero => exact fun _ => rfl
  | succ n ih =>
    intro id
    have hsizes : ∀ ids : List NodeId, ids.foldr (fun c size => d.sizeWithin n c + size) 1 =
        (ids.flatMap (d.preorderWithin n)).length + 1 := by
      intro ids
      induction ids with
      | nil => rfl
      | cons c ids ihids =>
        rw [List.foldr_cons, ihids, ih, List.flatMap_cons, List.length_append, Nat.add_assoc]
    rw [sizeWithin, hsizes, preorderWithin, List.length_cons]

/-- A walk from a stack of nodes meets what is below each of them, if it has as much fuel as
there are nodes to meet. -/
theorem walk_eq {n : Nat} {fuel : Nat} : ∀ {stack : List NodeId},
    (∀ id ∈ stack, d.DepthAtMost n id) → (stack.flatMap (d.preorderWithin n)).length ≤ fuel →
    d.walk fuel stack = stack.flatMap (d.preorderWithin n) := by
  induction fuel with
  | zero =>
    intro stack _ hlength
    rw [List.eq_nil_of_length_eq_zero (Nat.le_zero.mp hlength)]
    rfl
  | succ fuel ih =>
    intro stack hstack hlength
    rcases stack with _ | ⟨id, stack⟩
    · rfl
    have hid := hstack id List.mem_cons_self
    -- The children take the place of their node, and one unit of fuel pays for it.
    have hcons : (id :: stack).flatMap (d.preorderWithin n) =
        id :: (d.children id ++ stack).flatMap (d.preorderWithin n) := by
      rw [List.flatMap_cons, preorderWithin_eq_cons hid, List.flatMap_append]
      rfl
    rw [hcons] at hlength ⊢
    rw [walk, ih _ (Nat.le_of_succ_le_succ hlength)]
    intro c hc
    rcases List.mem_append.mp hc with hc | hc
    · exact (hid.of_mem hc).mono (Nat.sub_le n 1)
    · exact hstack c (List.mem_cons_of_mem id hc)

/-- The descendants of a node are met in document order, if no node lies deeper than there
are nodes. -/
theorem descendants_eq_preorder {id : NodeId} (h : d.DepthAtMost d.nodes.size id) :
    d.descendants id = d.preorder id := by
  have hstack : ∀ i ∈ [id], d.DepthAtMost d.nodes.size i :=
    fun i hi => List.mem_singleton.mp hi ▸ h
  have hfuel : ([id].flatMap (d.preorderWithin d.nodes.size)).length ≤ d.size id := by
    rw [List.flatMap_singleton]
    exact Nat.le_of_eq (sizeWithin_eq_length d id).symm
  exact (walk_eq hstack hfuel).trans (List.flatMap_singleton ..)

/-! ### Growing drawings -/

theorem children_eq_nil_of_size_le {id : NodeId} (h : d.nodes.size ≤ id) :
    d.children id = [] := by
  rw [children, Array.getElem?_eq_none h]

/-- Where children lie behind their parents, no node lies deeper than there are nodes behind
it. -/
theorem Growing.depthAtMost_sub (hd : d.Growing) {n : Nat} : ∀ {id : NodeId},
    d.nodes.size ≤ id + n → d.DepthAtMost n id := by
  induction n with
  | zero => exact fun h => children_eq_nil_of_size_le h
  | succ n ih =>
    intro id h c hc
    have hlt : id < c := (hd id c hc).1
    have hsize : d.nodes.size ≤ id + 1 + n := by
      rw [Nat.add_right_comm]
      exact h
    exact ih (Nat.le_trans hsize (Nat.add_le_add_right hlt n))

theorem Growing.congr {d' : Drawing} (hd : d.Growing) (h : d'.bare = d.bare) : d'.Growing := by
  have hsize : d'.nodes.size = d.nodes.size := by
    have := congrArg (·.nodes.size) h
    simpa [bare, mapElements] using this
  intro id c hc
  rw [← children_mapElements d' Element.bare id] at hc
  rw [hsize]
  refine hd id c ?_
  rw [← children_mapElements d Element.bare id]
  exact (congrArg (·.children id) h) ▸ hc

theorem Growing.depthAtMost (hd : d.Growing) (id : NodeId) : d.DepthAtMost d.nodes.size id :=
  hd.depthAtMost_sub (Nat.le_add_left ..)

/-! ### Drawings with further nodes -/

theorem flatMap_filter_of_eq_nil {α β : Type} {p : α → Bool} {g : α → List β}
    (h : ∀ a, p a = false → g a = []) (l : List α) : (l.filter p).flatMap g = l.flatMap g := by
  induction l with
  | nil => rfl
  | cons a l ih =>
    rw [List.filter_cons, List.flatMap_cons]
    cases hp : p a with
    | true => rw [if_pos rfl, List.flatMap_cons, ih]
    | false => rw [if_neg (by decide), ih, h a hp, List.nil_append]

/-- Where the old ones among the children of every node are those that it had, the old ones among
the nodes that are met are those that were met. -/
theorem filter_preorderWithin {d' : Drawing}
    (h : ∀ id, (d'.children id).filter (· < d.nodes.size) = d.children id) {n : Nat} :
    ∀ (id : NodeId), (d'.preorderWithin n id).filter (· < d.nodes.size) =
      (d.preorderWithin n id).filter (· < d.nodes.size) := by
  induction n with
  | zero => exact fun _ => rfl
  | succ n ih =>
    intro id
    have hnew : ∀ c, decide (c < d.nodes.size) = false →
        (d.preorderWithin n c).filter (· < d.nodes.size) = [] := by
      intro c hc
      have hge : d.nodes.size ≤ c := Nat.le_of_not_lt (of_decide_eq_false hc)
      rw [preorderWithin_eq_singleton (children_eq_nil_of_size_le hge), List.filter_cons, hc]
      rfl
    rw [preorderWithin, preorderWithin, List.filter_cons, List.filter_cons, List.filter_flatMap,
      List.filter_flatMap, List.flatMap_def, List.map_congr_left fun c _ => ih c,
      ← List.flatMap_def, ← flatMap_filter_of_eq_nil hnew, h]

end GraphFolding.Drawing
