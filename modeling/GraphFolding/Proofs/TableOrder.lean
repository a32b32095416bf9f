/-
The order in which the nodes of a document lie in the table.

A node is entered with all that stands in it before the next one is, so that whatever was entered
with it lies right behind it:

* `Drawing.descendants_graft` — what is below a node that was entered, place by place;
* `Xml.Node.lineages` — the start tags of a document, each with those around it;
* `Drawing.storedLineage` — what these are stored as;
* `Drawing.standsIn_ofDocument` — the elements of a drawing that was read stand in those of the
  start tags around them, whether they lie below the root or not;
* `Drawing.hasTags_ofDocument` — they are the elements of the start tags, one after the other.
-/
import GraphFolding.Proofs.StartTags
namespace GraphFolding

open Xml

namespace Xml

mutual

/-- The start tags of a node and of what stands in it, in document order, each followed by those
around it, the innermost first. -/
def Node.lineages (above : List Tag) : Node → List (List Tag)
  | .element tag children => (tag :: above) :: allLineages (tag :: above) children
  | .text _ => []
  | .comment _ => []
  | .instruction .. => []

/-- As `Node.lineages`, for several nodes. -/
def allLineages (above : List Tag) : List Node → List (List Tag)
  | [] => []
  | x :: xs => x.lineages above ++ allLineages above xs

end

mutual

theorem Node.head?_lineages (above : List Tag) : ∀ x : Node,
    (x.lineages above).map List.head? = x.tags.map some
  | .element tag children => by
    rw [Node.lineages, List.map_cons, head?_allLineages (tag :: above) children]
    rfl
  | .text _ => rfl
  | .comment _ => rfl
  | .instruction .. => rfl

/-- As `Node.head?_lineages`, for several nodes. -/
theorem head?_allLineages (above : List Tag) : ∀ xs : List Node,
    (allLineages above xs).map List.head? = (allTags xs).map some
  | [] => rfl
  | x :: xs => by
    rw [allLineages, List.map_append, Node.head?_lineages above x, head?_allLineages above xs,
      allTags, List.map_append]

end

theorem allLineages_eq_nil {xs : List Node} (h : ∀ x ∈ xs, x.isElement = false) :
    allLineages [] xs = [] := by
  have hheads := head?_allLineages [] xs
  rw [allTags_eq_nil h, List.map_nil, List.map_eq_nil_iff] at hheads
  exact hheads

/-- The bindings in force in the innermost of several start tags. -/
def scopeAround : List Tag → Scope
  | [] => []
  | tag :: _ => tag.scope

end Xml

/-! ### What is below a node that was entered -/

theorem range'_append_sub {a b c : Nat} (hab : a ≤ b) (hbc : b ≤ c) :
    List.range' a (b - a) ++ List.range' b (c - b) = List.range' a (c - a) := by
  obtain ⟨m, rfl⟩ := Nat.exists_eq_add_of_le hab
  obtain ⟨n, rfl⟩ := Nat.exists_eq_add_of_le hbc
  rw [Nat.add_sub_cancel_left, Nat.add_sub_cancel_left, Nat.add_assoc a m n,
    Nat.add_sub_cancel_left, List.range'_append_1]

namespace Drawing

variable {d : Drawing}

theorem descendants_push (hd : d.WellLinked) {nodes : Array Node} (content : NodeContent)
    (parent : Option NodeId)
    (hkept : KeptFrom nodes.size (nodes.push ⟨content, parent, []⟩) d.nodes) :
    d.descendants nodes.size =
      List.range' nodes.size ((nodes.push ⟨content, parent, []⟩).size - nodes.size) := by
  have hnode := hkept nodes.size (Nat.le_refl _) (by simp)
  rw [Array.getElem?_push_size] at hnode
  rw [hd.descendants_eq_cons, children_of_getElem? hnode, Array.size_push, Nat.add_sub_cancel_left]
  rfl

mutual

/-- A node is entered at the end of the table, and all that stands in it right behind it. -/
theorem descendants_graft (hd : d.WellLinked) : ∀ (x : Xml.Node) (inherited : Scope)
    {parent : Option NodeId} {nodes : Array Node}, GrowingTable nodes →
    (∀ p, parent = some p → HoldsElement nodes p) →
    KeptFrom nodes.size (graft inherited parent nodes x).1 d.nodes →
    d.descendants nodes.size =
      List.range' nodes.size ((graft inherited parent nodes x).1.size - nodes.size)
  | .element tag children, inherited, parent, nodes, hn, hp, hkept => by
    have hpush := grafted_push hn (.element (.ofTag inherited tag)) hp
    have hself : HoldsElement (nodes.push ⟨.element (.ofTag inherited tag), parent, []⟩)
        nodes.size := ⟨_, _, Array.getElem?_push_size, rfl⟩
    have hgrafted := grafted_graftAll tag.scope children hpush.growing hself
    have hbelow := descendants_graftAll hd children tag.scope hpush.growing hself
    rcases hout : graftAll tag.scope nodes.size
      (nodes.push ⟨.element (.ofTag inherited tag), parent, []⟩) children with ⟨out, ids⟩
    rw [hout] at hgrafted hbelow
    rw [graft_element inherited parent nodes tag children hout, Array.size_modify]
    rw [graft_element inherited parent nodes tag children hout] at hkept
    rw [Array.size_push] at hbelow
    have hsize : nodes.size + 1 ≤ out.size := by
      have hle := hgrafted.size_le
      rwa [Array.size_push] at hle
    have hat : out[nodes.size]? = some ⟨.element (.ofTag inherited tag), parent, []⟩ := by
      rw [hgrafted.kept nodes.size (by simp), Array.getElem?_push_size]
    have hnode : d.nodes[nodes.size]? =
        some ⟨.element (.ofTag inherited tag), parent, ids⟩ := by
      rw [hkept nodes.size (Nat.le_refl _) (by rwa [Array.size_modify]),
        Array.getElem?_modify, if_pos rfl, hat]
      rfl
    have hrest : KeptFrom (nodes.size + 1) out d.nodes := by
      intro i hlow hi
      rw [hkept i (Nat.le_of_lt hlow) (by rwa [Array.size_modify]), Array.getElem?_modify,
        if_neg (Nat.ne_of_lt hlow)]
    have hlength : out.size - nodes.size = out.size - (nodes.size + 1) + 1 := by omega
    rw [hd.descendants_eq_cons, children_of_getElem? hnode, hbelow hrest, hlength,
      List.range'_succ]
  | .text value, _, parent, _, _, _, hkept => descendants_push hd (.text value) parent hkept
  | .comment value, _, parent, _, _, _, hkept => descendants_push hd (.comment value) parent hkept
  | .instruction target value, _, parent, _, _, _, hkept =>
    descendants_push hd (.instruction target value) parent hkept

/-- As `descendants_graft`, for several nodes. -/
theorem descendants_graftAll (hd : d.WellLinked) : ∀ (xs : List Xml.Node) (inherited : Scope)
    {parent : NodeId} {nodes : Array Node}, GrowingTable nodes → HoldsElement nodes parent →
    KeptFrom nodes.size (graftAll inherited parent nodes xs).1 d.nodes →
    (graftAll inherited parent nodes xs).2.flatMap d.descendants =
      List.range' nodes.size ((graftAll inherited parent nodes xs).1.size - nodes.size)
  | [], _, _, nodes, _, _, _ => by simp [graftAll]
  | x :: xs, inherited, parent, nodes, hn, hp, hkept => by
    have hparent : ∀ p, some parent = some p → HoldsElement nodes p :=
      fun p h => Option.some_inj.mp h ▸ hp
    have hgrafted := grafted_graft inherited x hn hparent
    have hfirst := descendants_graft hd x inherited hn hparent
    rcases hout : graft inherited (some parent) nodes x with ⟨out, id⟩
    rw [hout] at hgrafted hfirst
    obtain ⟨hgrafted, rfl⟩ := hgrafted
    have hp' := hp.kept hgrafted.kept
    have hmore := descendants_graftAll hd xs inherited hgrafted.growing hp'
    have hall := grafted_graftAll inherited xs hgrafted.growing hp'
    rcases hout' : graftAll inherited parent out xs with ⟨out', ids⟩
    rw [hout'] at hmore hall
    rw [graftAll_cons inherited parent nodes _ _ hout hout'] at hkept ⊢
    have hsize := hgrafted.size_le
    have hsize' := hall.size_le
    have hstart : KeptFrom nodes.size out d.nodes := by
      intro i hlow hi
      rw [hkept i hlow (Nat.lt_of_lt_of_le hi hsize'), hall.kept i hi]
    have hend : KeptFrom out.size out' d.nodes := fun i hlow hi =>
      hkept i (Nat.le_trans hsize hlow) hi
    -- The first node takes the places up to where the others start.
    rw [List.flatMap_cons, hfirst hstart, hmore hend, range'_append_sub hsize hsize']

end

theorem kept_foldl_add (xs : List Xml.Node) : ∀ {o : Outline}, GrowingTable o.nodes →
    KeptFrom 0 o.nodes (xs.foldl Outline.add o).nodes ∧
      o.nodes.size ≤ (xs.foldl Outline.add o).nodes.size := by
  induction xs with
  | nil => exact fun _ => ⟨fun _ _ _ => rfl, Nat.le_refl _⟩
  | cons x xs ih =>
    intro o ho
    obtain ⟨hkept, hsize⟩ := ih (growingTable_outline_add ho x)
    have hstep : KeptFrom 0 o.nodes (o.add x).nodes ∧ o.nodes.size ≤ (o.add x).nodes.size := by
      rcases nodes_outline_add o x with ⟨-, hsame⟩ | hgraft
      · rw [hsame]
        exact ⟨fun _ _ _ => rfl, Nat.le_refl _⟩
      · have hnone : ∀ p, (none : Option NodeId) = some p → HoldsElement o.nodes p := by simp
        have hgrafted := (grafted_graft [] x ho hnone).1
        rw [hgraft]
        exact ⟨fun i _ hi => hgrafted.kept i hi, hgrafted.size_le⟩
    refine ⟨fun i _ hi => ?_, Nat.le_trans hstep.2 hsize⟩
    rw [List.foldl_cons, hkept i (Nat.zero_le i) (Nat.lt_of_lt_of_le hi hstep.2),
      hstep.1 i (Nat.zero_le i) hi]

/-! ### Elements in others -/

/-- What several start tags, the innermost first, are stored as. -/
def storedLineage : List Tag → List Element
  | [] => []
  | tag :: above => .ofTag (scopeAround above) tag :: storedLineage above

mutual

/-- The places of what a node is stored as are those of its start tags. -/
theorem lineage_places_ofNode : ∀ (x : Xml.Node) (above : List Tag),
    ((Markup.ofNode (scopeAround above) x).places (storedLineage above)).map (·.lineage) =
      (x.lineages above).map storedLineage
  | .element tag children, above => by
    have hchildren := lineage_allPlaces_ofNodes children (tag :: above)
    rw [Markup.ofNode, Markup.places, Node.lineages, List.map_cons, List.map_cons, ← hchildren]
    rfl
  | .text _, _ => rfl
  | .comment _, _ => rfl
  | .instruction .., _ => rfl

/-- As `lineage_places_ofNode`, for several nodes. -/
theorem lineage_allPlaces_ofNodes : ∀ (xs : List Xml.Node) (above : List Tag),
    (Markup.allPlaces (storedLineage above) (Markup.ofNodes (scopeAround above) xs)).map
      (·.lineage) = (allLineages above xs).map storedLineage
  | [], _ => rfl
  | x :: xs, above => by
    rw [Markup.ofNodes, Markup.allPlaces, List.map_append, lineage_places_ofNode x above,
      lineage_allPlaces_ofNodes xs above, allLineages, List.map_append]

end

/-- The elements of a node entered outside every other one stand in those of the start tags around
them. -/
theorem standsIn_graft (hd : d.WellLinked) (x : Xml.Node) {nodes : Array Node}
    (hn : GrowingTable nodes) (hkept : KeptFrom nodes.size (graft [] none nodes x).1 d.nodes) :
    List.Forall₂ (fun id lineage => d.StandsIn id (storedLineage lineage))
      ((List.range' nodes.size ((graft [] none nodes x).1.size - nodes.size)).filter d.isElement)
      (x.lineages []) := by
  have hnone : ∀ p, (none : Option NodeId) = some p → HoldsElement nodes p := by simp
  have hgrowing := (grafted_graft [] x hn hnone).1.growing
  have hholds := Holds.kept hgrowing hkept _ (holds_graft x [] hn hnone) (Nat.le_refl _)
  have hplaces : List.Forall₂ d.IsAt ((d.descendants nodes.size).filter d.isElement)
      ((Markup.ofNode [] x).places []) := hd.places_of_holds _ hholds fun _ => rfl
  have hlineages : List.Forall₂ d.StandsIn ((d.descendants nodes.size).filter d.isElement)
      (((Markup.ofNode [] x).places []).map (·.lineage)) :=
    List.forall₂_map_right_iff.mpr (hplaces.imp fun id p hat => hat.lineage)
  have hsame := lineage_places_ofNode x []
  rw [scopeAround, storedLineage] at hsame
  rw [← descendants_graft hd x [] hn hnone hkept]
  exact List.forall₂_map_right_iff.mp (hsame ▸ hlineages)

/-- As `standsIn_graft`, for nodes that are entered one after the other. -/
theorem standsIn_foldl_add (hd : d.WellLinked) (xs : List Xml.Node) : ∀ {o : Outline},
    GrowingTable o.nodes → KeptFrom o.nodes.size (xs.foldl Outline.add o).nodes d.nodes →
    List.Forall₂ (fun id lineage => d.StandsIn id (storedLineage lineage))
      ((List.range' o.nodes.size
        ((xs.foldl Outline.add o).nodes.size - o.nodes.size)).filter d.isElement)
      (allLineages [] xs) := by
  induction xs with
  | nil =>
    intro o _ _
    simp [allLineages]
  | cons x xs ih =>
    intro o ho hkept
    rw [List.foldl_cons] at hkept ⊢
    have hgrowing := growingTable_outline_add ho x
    obtain ⟨hlater, hlatersize⟩ := kept_foldl_add xs hgrowing
    rcases nodes_outline_add o x with ⟨⟨value, rfl⟩, -⟩ | hgraft
    · exact ih ho hkept
    have hnone : ∀ p, (none : Option NodeId) = some p → HoldsElement o.nodes p := by simp
    have hgrafted := (grafted_graft [] x ho hnone).1
    have hsize : o.nodes.size ≤ (o.add x).nodes.size := hgraft ▸ hgrafted.size_le
    have hfirst : KeptFrom o.nodes.size (graft [] none o.nodes x).1 d.nodes := by
      intro i hlow hi
      rw [← hgraft] at hi ⊢
      rw [hkept i hlow (Nat.lt_of_lt_of_le hi hlatersize), hlater i (Nat.zero_le i) hi]
    have hrest := ih hgrowing fun i hlow hi => hkept i (Nat.le_trans hsize hlow) hi
    -- The places up to where the next node begins belong to this one.
    rw [← range'_append_sub hsize hlatersize, List.filter_append, allLineages]
    refine List.rel_append ?_ hrest
    rw [hgraft]
    exact standsIn_graft hd x ho hfirst

/-- The elements of a drawing, in the order of its table. -/
def elementIds (d : Drawing) : List NodeId := (List.range d.nodes.size).filter d.isElement

/-- The elements of a drawing that was read stand in those of the start tags around them. -/
theorem standsIn_ofDocument {xs : List Xml.Node} (h : ofDocument xs = .ok d) :
    List.Forall₂ (fun id lineage => d.StandsIn id (storedLineage lineage)) d.elementIds
      (allLineages [] xs) := by
  have hd := wellLinked_ofDocument h
  obtain ⟨root, -, rfl⟩ := outline_ofDocument h
  have hall := standsIn_foldl_add hd xs (o := ⟨#[], none, [], []⟩) growingTable_empty
    fun _ _ _ => rfl
  rw [elementIds, List.range_eq_range']
  exact hall

/-- Whether a node is the element of a start tag. -/
def IsOfTag (d : Drawing) (id : NodeId) (tag : Tag) : Prop :=
  ∃ inherited, d.element? id = some (.ofTag inherited tag)

/-- Elements that stand in those of the start tags around them are those of their own ones. -/
theorem isOfTag_of_standsIn {ids : List NodeId} {xs : List Xml.Node} (h : List.Forall₂
    (fun id lineage => d.StandsIn id (storedLineage lineage)) ids (allLineages [] xs)) :
    List.Forall₂ d.IsOfTag ids (allTags xs) := by
  have hheads : List.Forall₂ (fun id tag? => ∀ tag ∈ tag?, d.IsOfTag id tag) ids
      ((allLineages [] xs).map List.head?) := by
    refine List.forall₂_map_right_iff.mpr (h.imp fun id lineage hstands tag htag => ?_)
    obtain ⟨above, rfl⟩ := List.head?_eq_some_iff.mp htag
    exact ⟨scopeAround above, hstands 0⟩
  rw [head?_allLineages, List.forall₂_map_right_iff] at hheads
  exact hheads.imp fun id tag hid => hid tag rfl

/-- The elements of a drawing that was read are those of the start tags of the document. -/
theorem hasTags_ofDocument {xs : List Xml.Node} (h : ofDocument xs = .ok d) :
    List.Forall₂ d.IsOfTag d.elementIds (allTags xs) :=
  isOfTag_of_standsIn (standsIn_ofDocument h)

end Drawing
end GraphFolding
