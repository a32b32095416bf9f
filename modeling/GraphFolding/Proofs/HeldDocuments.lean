/-
What a drawing that was read holds.

* `Holds.kept` — what is held stays held when the table grows or changes further up;
* `Markup.ofNode` — a node of a document as markup, under the names kept for it;
* `Drawing.holds_graft`, `Drawing.holds_graftAll` — entering a node makes the table hold it;
* `Markup.Sketch.ofNodes` — the comments and instructions before the first element, the last
  element, and the comments and instructions after the first;
* `Drawing.holds_ofDocument` — a drawing that is read holds the document sketched so.

A document has one outermost element, unless the replacement text of an entity has closed it
early; hence the first and the last one.
-/
import GraphFolding.Proofs.Grafting
import GraphFolding.Proofs.Holding
namespace GraphFolding

open Xml (Scope)

/-- A table that is another one from a place on. -/
def KeptFrom (low : NodeId) (nodes out : Array Node) : Prop :=
  ∀ i, low ≤ i → i < nodes.size → out[i]? = nodes[i]?

mutual

/-- What is held stays held when the table behind a place stays as it is. -/
theorem Holds.kept {nodes out : Array Node} {low id : NodeId} (hn : Drawing.GrowingTable nodes)
    (hkept : KeptFrom low nodes out) : ∀ (m : Markup) {parent : Option NodeId},
    Holds nodes parent id m → low ≤ id → Holds out parent id m
  | .element e children, parent, h, hlow => by
    have hlt := h.lt
    obtain ⟨ids, hnode, hall⟩ := h
    refine ⟨ids, by rw [hkept id hlow hlt, hnode], HoldsAll.kept hn hkept children hall ?_⟩
    intro c hc
    have hchild := hn.children hnode hc
    exact Nat.le_of_lt (Nat.lt_of_le_of_lt hlow hchild.1)
  | .text value, parent, h, hlow => (hkept id hlow h.lt).trans h
  | .comment value, parent, h, hlow => (hkept id hlow h.lt).trans h
  | .instruction target value, parent, h, hlow => (hkept id hlow h.lt).trans h

/-- As `Holds.kept`, for several places. -/
theorem HoldsAll.kept {nodes out : Array Node} {low : NodeId} (hn : Drawing.GrowingTable nodes)
    (hkept : KeptFrom low nodes out) : ∀ (ms : List Markup) {ids : List NodeId}
    {parent : Option NodeId}, HoldsAll nodes parent ids ms → (∀ c ∈ ids, low ≤ c) →
    HoldsAll out parent ids ms
  | [], _, _, h, _ => h
  | m :: ms, ids, parent, h, hlow => by
    obtain ⟨id, rest, rfl, hm, hms⟩ := h
    exact ⟨id, rest, rfl, Holds.kept hn hkept m hm (hlow id List.mem_cons_self),
      HoldsAll.kept hn hkept ms hms fun c hc => hlow c (List.mem_cons_of_mem id hc)⟩

end

/-! ### Nodes as markup -/

mutual

/-- A node of a document as markup, under the names kept for it. -/
def Markup.ofNode (inherited : Scope) : Xml.Node → Markup
  | .element tag children => .element (.ofTag inherited tag) (ofNodes tag.scope children)
  | .text value => .text value
  | .comment value => .comment value
  | .instruction target value => .instruction target value

/-- As `Markup.ofNode`, for several nodes. -/
def Markup.ofNodes (inherited : Scope) : List Xml.Node → List Markup
  | [] => []
  | x :: xs => ofNode inherited x :: ofNodes inherited xs

end

namespace Drawing

mutual

/-- Entering a node makes the table hold it. -/
theorem holds_graft : ∀ (x : Xml.Node) (inherited : Scope) {parent : Option NodeId}
    {nodes : Array Node}, GrowingTable nodes → (∀ p, parent = some p → HoldsElement nodes p) →
    GraphFolding.Holds (graft inherited parent nodes x).1 parent nodes.size
      (.ofNode inherited x)
  | .element tag children, inherited, parent, nodes, hn, hp => by
    have hpush := grafted_push hn (.element (.ofTag inherited tag)) hp
    have hself : HoldsElement (nodes.push ⟨.element (.ofTag inherited tag), parent, []⟩)
        nodes.size := ⟨_, _, Array.getElem?_push_size, rfl⟩
    have hgrafted := grafted_graftAll tag.scope children hpush.growing hself
    have hholds := holds_graftAll children tag.scope hpush.growing hself
    rcases hout : graftAll tag.scope nodes.size
      (nodes.push ⟨.element (.ofTag inherited tag), parent, []⟩) children with ⟨out, ids⟩
    rw [hout] at hgrafted hholds
    have hat : out[nodes.size]? = some ⟨.element (.ofTag inherited tag), parent, []⟩ := by
      rw [hgrafted.kept nodes.size (by simp), Array.getElem?_push_size]
    -- The children lie behind the element, so the change to its node leaves them alone.
    have hkept : KeptFrom (nodes.size + 1) out
        (out.modify nodes.size fun node => { node with children := ids }) := by
      intro i hlow _
      rw [Array.getElem?_modify, if_neg (Nat.ne_of_lt hlow)]
    have hids : ∀ c ∈ ids, nodes.size + 1 ≤ c := by
      intro c hc
      have hnew := (hgrafted.new c hc).1
      rwa [Array.size_push] at hnew
    rw [graft_element inherited parent nodes tag children hout]
    refine ⟨ids, ?_, HoldsAll.kept hgrafted.growing hkept _ hholds hids⟩
    rw [Array.getElem?_modify, if_pos rfl, hat]
    rfl
  | .text value, inherited, parent, nodes, hn, hp => Array.getElem?_push_size
  | .comment value, inherited, parent, nodes, hn, hp => Array.getElem?_push_size
  | .instruction target value, inherited, parent, nodes, hn, hp => Array.getElem?_push_size

/-- As `holds_graft`, for several nodes. -/
theorem holds_graftAll : ∀ (xs : List Xml.Node) (inherited : Scope) {parent : NodeId}
    {nodes : Array Node}, GrowingTable nodes → HoldsElement nodes parent →
    HoldsAll (graftAll inherited parent nodes xs).1 (some parent)
      (graftAll inherited parent nodes xs).2 (Markup.ofNodes inherited xs)
  | [], _, _, _, _, _ => rfl
  | x :: xs, inherited, parent, nodes, hn, hp => by
    have hparent : ∀ p, some parent = some p → HoldsElement nodes p :=
      fun p h => Option.some_inj.mp h ▸ hp
    have hfirst := holds_graft x inherited hn hparent
    have hgrafted := grafted_graft inherited x hn hparent
    rcases hout : graft inherited (some parent) nodes x with ⟨out, id⟩
    rw [hout] at hfirst hgrafted
    obtain ⟨hgrafted, rfl⟩ := hgrafted
    have hp' := hp.kept hgrafted.kept
    have hmore := holds_graftAll xs inherited hgrafted.growing hp'
    have hall := grafted_graftAll inherited xs hgrafted.growing hp'
    rcases hout' : graftAll inherited parent out xs with ⟨out', ids⟩
    rw [hout'] at hmore hall
    rw [graftAll_cons inherited parent nodes _ _ hout hout']
    have hkept : KeptFrom 0 out out' := fun i _ hi => hall.kept i hi
    exact ⟨_, ids, rfl, Holds.kept hgrafted.growing hkept _ hfirst (Nat.zero_le _), hmore⟩

end

end Drawing

/-! ### Whole documents -/

theorem HoldsAll.concat {nodes : Array Node} {parent : Option NodeId} {id : NodeId} {m : Markup}
    (hm : Holds nodes parent id m) : ∀ {ms : List Markup} {ids : List NodeId},
    HoldsAll nodes parent ids ms → HoldsAll nodes parent (ids ++ [id]) (ms ++ [m]) := by
  intro ms
  induction ms with
  | nil =>
    intro ids h
    rw [HoldsAll] at h
    subst h
    exact ⟨id, [], rfl, hm, rfl⟩
  | cons n ms ih =>
    intro ids h
    obtain ⟨first, rest, rfl, hn, hms⟩ := h
    exact ⟨first, rest ++ [id], rfl, hn, ih hms⟩

namespace Markup

/-- A document under construction, whose element may be still to come. -/
structure Sketch where
  before : List Markup := []
  root : Option Markup := none
  after : List Markup := []

namespace Sketch

/-- One node outside every element put into a document; text there is dropped. -/
def add (s : Sketch) (x : Xml.Node) : Sketch :=
  match x with
  | .element .. => { s with root := some (.ofNode [] x) }
  | .text _ => s
  | _ =>
    if s.root.isSome then { s with after := s.after ++ [.ofNode [] x] }
    else { s with before := s.before ++ [.ofNode [] x] }

/-- The document of several nodes. -/
def ofNodes (xs : List Xml.Node) : Sketch := xs.foldl add {}

/-- Whether a node is a comment or an instruction. -/
def isAside : Xml.Node → Bool
  | .comment _ => true
  | .instruction .. => true
  | _ => false

theorem root_foldl_add (xs : List Xml.Node) : ∀ s : Sketch,
    (xs.foldl add s).root = (((xs.filter (·.isElement)).map (ofNode [])).getLast?).or s.root := by
  induction xs with
  | nil => simp
  | cons x xs ih =>
    intro s
    rw [List.foldl_cons, ih]
    cases x with
    | element tag children =>
      have hfilter : (Xml.Node.element tag children :: xs).filter (·.isElement) =
          .element tag children :: xs.filter (·.isElement) := rfl
      rw [hfilter, List.map_cons, List.getLast?_cons]
      cases ((xs.filter (·.isElement)).map (ofNode [])).getLast? with
      | none => rfl
      | some m => rfl
    | text value => rfl
    | comment value =>
      simp only [add]
      split <;> rfl
    | instruction target value =>
      simp only [add]
      split <;> rfl

/-- The element of a document is the last one. -/
theorem root_ofNodes (xs : List Xml.Node) :
    (ofNodes xs).root = ((xs.filter (·.isElement)).map (ofNode [])).getLast? := by
  rw [ofNodes, root_foldl_add, Option.or_none]

theorem mem_foldl_add {m : Markup} (xs : List Xml.Node) : ∀ s : Sketch,
    m ∈ (xs.foldl add s).before ∨ m ∈ (xs.foldl add s).after ↔
      (m ∈ s.before ∨ m ∈ s.after) ∨ ∃ x ∈ xs, isAside x = true ∧ m = ofNode [] x := by
  induction xs with
  | nil => simp
  | cons x xs ih =>
    intro s
    have hadd : m ∈ (s.add x).before ∨ m ∈ (s.add x).after ↔
        (m ∈ s.before ∨ m ∈ s.after) ∨ (isAside x = true ∧ m = ofNode [] x) := by
      cases x with
      | element tag children => simp [add, isAside]
      | text value => simp [add, isAside]
      | comment value =>
        simp only [add, isAside]
        split
        · simp [or_assoc]
        · simp [or_assoc, or_comm, or_left_comm]
      | instruction target value =>
        simp only [add, isAside]
        split
        · simp [or_assoc]
        · simp [or_assoc, or_comm, or_left_comm]
    simp only [List.foldl_cons, ih, hadd, List.mem_cons, or_and_right, exists_or,
      exists_eq_left, or_assoc]

/-- The comments and instructions of a document. -/
theorem mem_ofNodes {m : Markup} (xs : List Xml.Node) :
    m ∈ (ofNodes xs).before ∨ m ∈ (ofNodes xs).after ↔
      ∃ x ∈ xs, isAside x = true ∧ m = ofNode [] x := by
  rw [ofNodes, mem_foldl_add]
  simp

theorem foldl_add_asides (xs : List Xml.Node) : ∀ s : Sketch,
    (∀ x ∈ xs, isAside x = true) → xs.foldl add s =
      if s.root.isSome then { s with after := s.after ++ Markup.ofNodes [] xs }
      else { s with before := s.before ++ Markup.ofNodes [] xs } := by
  induction xs with
  | nil =>
    intro s _
    simp [Markup.ofNodes]
  | cons x xs ih =>
    intro s hxs
    have hadd : s.add x =
        if s.root.isSome then { s with after := s.after ++ [.ofNode [] x] }
        else { s with before := s.before ++ [.ofNode [] x] } := by
      have hx := hxs x List.mem_cons_self
      cases x with
      | element tag children => simp [isAside] at hx
      | text value => simp [isAside] at hx
      | comment value => rfl
      | instruction target value => rfl
    rw [List.foldl_cons, ih _ fun y hy => hxs y (List.mem_cons_of_mem x hy), hadd]
    cases hroot : s.root.isSome with
    | true => simp [hroot, Markup.ofNodes]
    | false => simp [hroot, Markup.ofNodes]

/-- An element with comments and instructions around it. -/
theorem ofNodes_append {xs ys : List Xml.Node} (hxs : ∀ x ∈ xs, isAside x = true)
    (hys : ∀ y ∈ ys, isAside y = true) (tag : Xml.Tag) (children : List Xml.Node) :
    ofNodes (xs ++ .element tag children :: ys) =
      ⟨Markup.ofNodes [] xs, some (.ofNode [] (.element tag children)), Markup.ofNodes [] ys⟩ := by
  rw [ofNodes, List.foldl_append, List.foldl_cons, foldl_add_asides xs _ hxs,
    foldl_add_asides ys _ hys]
  simp [add]

end Sketch
end Markup

namespace Drawing

/-- Whether a drawing under construction holds what has been read of a document. -/
structure Outline.Holds (o : Outline) (s : Markup.Sketch) : Prop where
  growing : GrowingTable o.nodes
  before : HoldsAll o.nodes none o.prologue s.before
  element : ∀ m ∈ s.root, ∃ id, o.root = some id ∧ GraphFolding.Holds o.nodes none id m
  isSome_eq : o.root.isSome = s.root.isSome
  after : HoldsAll o.nodes none o.epilogue s.after

/-- A node entered outside every element, and what was held before. -/
theorem entered_graft {nodes : Array Node} (hn : GrowingTable nodes) (x : Xml.Node) :
    GrowingTable (graft [] none nodes x).1 ∧ KeptFrom 0 nodes (graft [] none nodes x).1 ∧
      GraphFolding.Holds (graft [] none nodes x).1 none (graft [] none nodes x).2
        (.ofNode [] x) := by
  have hnone : ∀ p, (none : Option NodeId) = some p → HoldsElement nodes p := by simp
  obtain ⟨hgrafted, hid⟩ := grafted_graft [] x hn hnone
  exact ⟨hgrafted.growing, fun i _ hi => hgrafted.kept i hi, hid ▸ holds_graft x [] hn hnone⟩

theorem Outline.Holds.add {o : Outline} {s : Markup.Sketch} (ho : o.Holds s) (x : Xml.Node) :
    (o.add x).Holds (s.add x) := by
  obtain ⟨hgrowing, hkept, hholds⟩ := entered_graft ho.growing x
  have hbefore := HoldsAll.kept ho.growing hkept s.before ho.before (by simp)
  have hafter := HoldsAll.kept ho.growing hkept s.after ho.after (by simp)
  have helement : ∀ m ∈ s.root, ∃ id, o.root = some id ∧
      GraphFolding.Holds (graft [] none o.nodes x).1 none id m := by
    intro m hm
    obtain ⟨id, hid, hheld⟩ := ho.element m hm
    exact ⟨id, hid, GraphFolding.Holds.kept ho.growing hkept m hheld (Nat.zero_le id)⟩
  -- Comments and instructions go before the element until there is one, and after it then.
  have haside : (if o.root.isSome then
        ({ o with
          nodes := (graft [] none o.nodes x).1
          epilogue := o.epilogue ++ [(graft [] none o.nodes x).2] } : Outline)
      else { o with
          nodes := (graft [] none o.nodes x).1
          prologue := o.prologue ++ [(graft [] none o.nodes x).2] }).Holds
      (if s.root.isSome then { s with after := s.after ++ [.ofNode [] x] }
        else { s with before := s.before ++ [.ofNode [] x] }) := by
    rw [ho.isSome_eq]
    cases hroot : s.root.isSome with
    | true => exact ⟨hgrowing, hbefore, helement, ho.isSome_eq, HoldsAll.concat hholds hafter⟩
    | false => exact ⟨hgrowing, HoldsAll.concat hholds hbefore, helement, ho.isSome_eq, hafter⟩
  cases x with
  | element tag children =>
    refine ⟨hgrowing, hbefore, fun m hm => ?_, rfl, hafter⟩
    obtain rfl := Option.some_inj.mp hm
    exact ⟨_, rfl, hholds⟩
  | text value => exact ho
  | comment value => exact haside
  | instruction target value => exact haside

theorem Outline.Holds.foldl_add (xs : List Xml.Node) : ∀ {o : Outline} {s : Markup.Sketch},
    o.Holds s → (xs.foldl Outline.add o).Holds (xs.foldl Markup.Sketch.add s) := by
  induction xs with
  | nil => exact fun ho => ho
  | cons x xs ih => exact fun ho => ih (ho.add x)

end Drawing

theorem Xml.isElement_of_hasNamed {x : Xml.Node} {localName : String}
    (h : x.hasNamed localName = true) : x.isElement = true := by
  cases x with
  | element tag children => rfl
  | _ => simp [Xml.Node.hasNamed] at h

theorem Xml.anyNamed_eq_any (localName : String) (nodes : List Xml.Node) :
    Xml.anyNamed localName nodes = nodes.any (·.hasNamed localName) := by
  induction nodes with
  | nil => rfl
  | cons node nodes ih => rw [Xml.anyNamed, ih, List.any_cons]

namespace Drawing

/-- A document in which there is a drawing has an element, and is held by the drawing. -/
theorem holds_ofDocument {xs : List Xml.Node} (hsvg : Xml.anyNamed "svg" xs = true) :
    ∃ root d, (Markup.Sketch.ofNodes xs).root = some root ∧ ofDocument xs = .ok d ∧
      d.Holds ⟨(Markup.Sketch.ofNodes xs).before, root, (Markup.Sketch.ofNodes xs).after⟩ := by
  have hempty : Outline.Holds ⟨#[], none, [], []⟩ {} :=
    ⟨growingTable_empty, rfl, by simp, rfl, rfl⟩
  have hall := hempty.foldl_add xs
  have hsome : (Markup.Sketch.ofNodes xs).root.isSome = true := by
    rw [Xml.anyNamed_eq_any] at hsvg
    obtain ⟨x, hx, hnamed⟩ := List.any_eq_true.mp hsvg
    have helement := Xml.isElement_of_hasNamed hnamed
    have hmem := List.mem_map_of_mem (f := Markup.ofNode []) (List.mem_filter.mpr ⟨hx, helement⟩)
    rw [Markup.Sketch.root_ofNodes, Option.isSome_iff_ne_none, Ne, List.getLast?_eq_none_iff]
    exact List.ne_nil_of_mem hmem
  obtain ⟨root, hroot⟩ := Option.isSome_iff_exists.mp hsome
  obtain ⟨id, hid, hheld⟩ := hall.element root hroot
  refine ⟨root, ⟨_, id, _, _⟩, hroot, ?_, ⟨hall.before, hheld, hall.after⟩⟩
  rw [ofDocument, hsvg]
  simp only [Bool.not_true, hid]
  rfl

/-- A drawing that was read holds the document that was read. -/
theorem exists_holds_of_ofDocument {xs : List Xml.Node} {d : Drawing}
    (h : ofDocument xs = .ok d) : Xml.anyNamed "svg" xs = true ∧
      ∃ root, (Markup.Sketch.ofNodes xs).root = some root ∧
        d.Holds ⟨(Markup.Sketch.ofNodes xs).before, root, (Markup.Sketch.ofNodes xs).after⟩ := by
  have hsvg : Xml.anyNamed "svg" xs = true := by
    cases hsvg : Xml.anyNamed "svg" xs with
    | true => rfl
    | false =>
      rw [ofDocument, hsvg] at h
      exact absurd h (by simp)
  obtain ⟨root, d', hroot, hread, hholds⟩ := holds_ofDocument hsvg
  obtain rfl := Except.ok.inj (h.symm.trans hread)
  exact ⟨hsvg, root, hroot, hholds⟩

end Drawing
end GraphFolding
