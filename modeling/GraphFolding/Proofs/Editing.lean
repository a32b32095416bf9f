/-
Single changes to a drawing, and how its nodes hang together after each.

* `Drawing.skeleton` — a drawing without what stands in its tags but the names;
* `Extended`, `Grown` — nothing is detached or renamed; nothing old is attached either;
* `WellLinked.of_skeleton_eq`, `WellLinked.pushNode`, `WellLinked.attach` — what keeps a
  drawing well linked: changes within tags, a new node, a node put below another one;
* `WellLinked.appendText`, `WellLinked.insertChild` — text and nodes put into elements;
* `WellLinked.prepare` — a drawing prepared, stylesheet, script and all.
-/
import GraphFolding.Proofs.Forest
import GraphFolding.Proofs.FoldActions
import GraphFolding.Folding.Prepared
namespace GraphFolding

/-- An element with nothing but its name. -/
def Element.unadorned (e : Element) : Element := ⟨e.name, [], []⟩

namespace Drawing

/-- A drawing whose tags hold nothing but names. -/
def skeleton (d : Drawing) : Drawing := d.mapElements Element.unadorned

/-- The nodes outside every element, and the outermost element. -/
def outermost (d : Drawing) : List NodeId := d.root :: (d.prologue ++ d.epilogue)

variable {d d' d'' : Drawing}

/-! ### What a change keeps -/

/-- A drawing with more nodes, in which what was attached hangs where it hung, and what was
named has its name. -/
structure Grown (d d' : Drawing) : Prop where
  root : d'.root = d.root
  parent? : ∀ {id p}, d.parent? id = some p → d'.parent? id = some p
  name? : ∀ {id name}, d.name? id = some name → d'.name? id = some name

/-- A drawing with more nodes, in which every old one hangs where it hung, if it hung
anywhere. -/
structure Extended (d d' : Drawing) : Prop where
  size_le : d.nodes.size ≤ d'.nodes.size
  outermost : d'.outermost = d.outermost
  parent? : ∀ id < d.nodes.size, d'.parent? id = d.parent? id
  name? : ∀ id < d.nodes.size, d'.name? id = d.name? id

theorem isElement_eq_isSome_name? (d : Drawing) (id : NodeId) :
    d.isElement id = (d.name? id).isSome := by
  rw [name?, Option.isSome_map, isElement]

theorem lt_of_name? {id : NodeId} {name : String} (h : d.name? id = some name) :
    id < d.nodes.size := by
  refine lt_size_of_isElement ?_
  rw [isElement_eq_isSome_name?, h]
  rfl

theorem Grown.refl (d : Drawing) : Grown d d := ⟨rfl, id, id⟩

theorem Grown.trans (h : Grown d d') (h' : Grown d' d'') : Grown d d'' :=
  ⟨h'.root.trans h.root, fun hp => h'.parent? (h.parent? hp), fun hn => h'.name? (h.name? hn)⟩

theorem Grown.ancestor? (h : Grown d d') {n : Nat} : ∀ {id a : NodeId},
    d.ancestor? id n = some a → d'.ancestor? id n = some a := by
  induction n with
  | zero => exact fun ha => ha
  | succ n ih =>
    intro id a ha
    obtain ⟨p, hp, ha⟩ := Option.bind_eq_some_iff.mp ha
    rw [ancestor?_of_parent? (h.parent? hp)]
    exact ih ha

/-- What was met by a walk from the root is met again. -/
theorem Grown.mem_descendants_root (h : Grown d d') (hd : d.WellLinked) (hd' : d'.WellLinked)
    {id : NodeId} (hid : id ∈ d.descendants d.root) : id ∈ d'.descendants d'.root := by
  obtain ⟨n, hn⟩ := hd.mem_descendants_iff.mp hid
  rw [h.root]
  exact hd'.mem_descendants_iff.mpr ⟨n, h.ancestor? hn⟩

theorem Extended.refl (d : Drawing) : Extended d d :=
  ⟨Nat.le_refl _, rfl, fun _ _ => rfl, fun _ _ => rfl⟩

theorem Extended.trans (h : Extended d d') (h' : Extended d' d'') : Extended d d'' where
  size_le := Nat.le_trans h.size_le h'.size_le
  outermost := h'.outermost.trans h.outermost
  parent? id hid := (h'.parent? id (Nat.lt_of_lt_of_le hid h.size_le)).trans (h.parent? id hid)
  name? id hid := (h'.name? id (Nat.lt_of_lt_of_le hid h.size_le)).trans (h.name? id hid)

theorem Extended.grown (h : Extended d d') : Grown d d' where
  root := (List.cons.inj h.outermost).1
  parent? hp := (h.parent? _ (lt_of_parent? hp)).trans hp
  name? hn := (h.name? _ (lt_of_name? hn)).trans hn

theorem Extended.isElement (h : Extended d d') {id : NodeId} (hid : d.isElement id) :
    d'.isElement id := by
  rw [isElement_eq_isSome_name?, h.name? id (lt_size_of_isElement hid),
    ← isElement_eq_isSome_name?]
  exact hid

/-- Above an old node there are old nodes only. -/
theorem Extended.ancestor_lt (h : Extended d d') (hd : d.WellLinked) {id : NodeId}
    (hid : id < d.nodes.size) {n : Nat} : ∀ {a : NodeId}, d'.ancestor? id n = some a →
    a < d.nodes.size := by
  induction n with
  | zero => exact fun ha => Option.some_inj.mp ha ▸ hid
  | succ n ih =>
    intro a ha
    obtain ⟨c, hc, hp⟩ := exists_of_ancestor?_succ ha
    rw [h.parent? c (ih hc)] at hp
    exact hd.parent_lt hp

/-! ### Changes within tags -/

theorem skeleton_eq_of_bare_eq (h : d'.bare = d.bare) : d'.skeleton = d.skeleton := by
  have hbare : ∀ d : Drawing, d.bare.skeleton = d.skeleton :=
    fun d => mapElements_mapElements d Element.bare Element.unadorned
  rw [← hbare, h, hbare]

theorem skeleton_ensureNamespace (d : Drawing) (name uri : String) :
    (d.ensureNamespace name uri).skeleton = d.skeleton := by
  refine mapElements_modifyElement (fun e => ?_) d d.root
  unfold Element.ensureNamespace
  split <;> rfl

section Skeleton

variable (h : d'.skeleton = d.skeleton)
include h

theorem children_eq_of_skeleton_eq (id : NodeId) : d'.children id = d.children id := by
  rw [← children_mapElements d' Element.unadorned, ← skeleton, h, skeleton,
    children_mapElements]

theorem parent?_eq_of_skeleton_eq (id : NodeId) : d'.parent? id = d.parent? id := by
  rw [← parent?_mapElements d' Element.unadorned, ← skeleton, h, skeleton,
    parent?_mapElements]

theorem name?_eq_of_skeleton_eq (id : NodeId) : d'.name? id = d.name? id := by
  have hname : ∀ d : Drawing, d.skeleton.name? id = d.name? id := by
    intro d
    rw [name?, skeleton, element?_mapElements, Option.map_map, name?]
    rfl
  rw [← hname, h, hname]

theorem size_eq_of_skeleton_eq : d'.nodes.size = d.nodes.size := by
  have hsize : ∀ d : Drawing, d.skeleton.nodes.size = d.nodes.size := fun _ => Array.size_map
  rw [← hsize, h, hsize]

theorem outermost_eq_of_skeleton_eq : d'.outermost = d.outermost := by
  show d'.skeleton.outermost = d.skeleton.outermost
  rw [h]

theorem extended_of_skeleton_eq : Extended d d' where
  size_le := Nat.le_of_eq (size_eq_of_skeleton_eq h).symm
  outermost := outermost_eq_of_skeleton_eq h
  parent? id _ := parent?_eq_of_skeleton_eq h id
  name? id _ := name?_eq_of_skeleton_eq h id

/-- Whatever is changed within tags, names apart, the nodes hang together as before. -/
theorem WellLinked.of_skeleton_eq (hd : d.WellLinked) : d'.WellLinked := by
  have hchildren := funext (children_eq_of_skeleton_eq h)
  have hparent := parent?_eq_of_skeleton_eq h
  have houter : d'.root :: (d'.prologue ++ d'.epilogue) = d.root :: (d.prologue ++ d.epilogue) :=
    outermost_eq_of_skeleton_eq h
  constructor
  · constructor
    · rw [hchildren]
      exact hd.acyclic
    · rw [hchildren, size_eq_of_skeleton_eq h]
      intro id c hc
      rw [hparent]
      exact hd.linked id c hc
    · intro id hne
      rw [hchildren] at hne
      show d'.isElement id = true
      rw [isElement_eq_isSome_name?, name?_eq_of_skeleton_eq h, ← isElement_eq_isSome_name?]
      exact hd.elements id hne
    · rw [houter, size_eq_of_skeleton_eq h]
      intro id hid
      rw [hparent]
      exact hd.outermost id hid
  · intro id p hp
    rw [hparent] at hp
    rw [hchildren]
    exact hd.listed hp
  · rw [hchildren]
    exact hd.nodup

end Skeleton

/-! ### New nodes -/

section Push

variable (d) (content : NodeContent) (id : NodeId)

theorem getElem?_pushNode : (d.pushNode content none).1.nodes[id]? =
    if id = d.nodes.size then some ⟨content, none, []⟩ else d.nodes[id]? :=
  Array.getElem?_push

theorem children_pushNode : (d.pushNode content none).1.children id = d.children id := by
  unfold children
  rw [getElem?_pushNode]
  by_cases h : id = d.nodes.size
  · rw [if_pos h, h, Array.getElem?_eq_none (Nat.le_refl _)]
  · rw [if_neg h]

theorem parent?_pushNode : (d.pushNode content none).1.parent? id = d.parent? id := by
  rw [parent?, getElem?_pushNode, parent?]
  by_cases h : id = d.nodes.size
  · rw [if_pos h, h, Array.getElem?_eq_none (Nat.le_refl _)]
    rfl
  · rw [if_neg h]

theorem element?_pushNode (hid : id < d.nodes.size) :
    (d.pushNode content none).1.element? id = d.element? id := by
  rw [element?_eq, getElem?_pushNode, if_neg (Nat.ne_of_lt hid), element?_eq]

theorem extended_pushNode : Extended d (d.pushNode content none).1 where
  size_le := by
    rw [pushNode, Array.size_push]
    exact Nat.le_succ _
  outermost := rfl
  parent? id _ := parent?_pushNode d content id
  name? id hid := by rw [name?, element?_pushNode d content id hid, name?]

end Push

/-- A new node hangs nowhere, and nothing hangs below it. -/
theorem WellLinked.pushNode (hd : d.WellLinked) (content : NodeContent) :
    (d.pushNode content none).1.WellLinked := by
  have hchildren := funext (children_pushNode d content)
  have hparent := parent?_pushNode d content
  have hextended := extended_pushNode d content
  constructor
  · constructor
    · rw [hchildren]
      exact hd.acyclic
    · rw [hchildren]
      intro id c hc
      rw [hparent]
      obtain ⟨hlt, hp⟩ := hd.linked id c hc
      exact ⟨Nat.lt_of_lt_of_le hlt hextended.size_le, hp⟩
    · intro id hne
      rw [hchildren] at hne
      exact hextended.isElement (hd.elements id hne)
    · intro id hid
      rw [hparent]
      obtain ⟨hlt, hp⟩ := hd.outermost id hid
      exact ⟨Nat.lt_of_lt_of_le hlt hextended.size_le, hp⟩
  · intro id p hp
    rw [hparent] at hp
    rw [hchildren]
    exact hd.listed hp
  · rw [hchildren]
    exact hd.nodup

/-! ### A node put below another one -/

/-- A drawing in which a node was put among the children of another one. -/
structure Attached (d d' : Drawing) (parent child : NodeId) : Prop where
  size : d'.nodes.size = d.nodes.size
  outermost : d'.outermost = d.outermost
  name? : ∀ id, d'.name? id = d.name? id
  parent? : ∀ id, d'.parent? id = if id = child then some parent else d.parent? id
  children_of_ne : ∀ id, id ≠ parent → d'.children id = d.children id
  children_parent : ∃ before after, d.children parent = before ++ after ∧
    d'.children parent = before ++ child :: after

/-- Whether a node is a loose one: it hangs nowhere and is no outermost one. -/
structure IsLoose (d : Drawing) (id : NodeId) : Prop where
  lt : id < d.nodes.size
  parent? : d.parent? id = none
  not_mem : id ∉ d.outermost

theorem IsLoose.extended {id : NodeId} (hid : d.IsLoose id) (h : Extended d d') :
    d'.IsLoose id where
  lt := Nat.lt_of_lt_of_le hid.lt h.size_le
  parent? := (h.parent? id hid.lt).trans hid.parent?
  not_mem := by
    rw [h.outermost]
    exact hid.not_mem

namespace Attached

variable {parent child : NodeId} (h : Attached d d' parent child)
include h

theorem mem_children_iff {id c : NodeId} :
    c ∈ d'.children id ↔ c ∈ d.children id ∨ (id = parent ∧ c = child) := by
  by_cases hid : id = parent
  · obtain ⟨before, after, hbefore, hafter⟩ := h.children_parent
    subst hid
    rw [hbefore, hafter, List.mem_append, List.mem_append, List.mem_cons]
    simp only [true_and]
    constructor
    · rintro (hc | hc | hc)
      · exact .inl (.inl hc)
      · exact .inr hc
      · exact .inl (.inr hc)
    · rintro ((hc | hc) | hc)
      · exact .inl hc
      · exact .inr (.inr hc)
      · exact .inr (.inl hc)
  · rw [h.children_of_ne id hid]
    simp [hid]

/-- What is attached far enough from what it is put below, closes no circle. -/
theorem acyclic (hd : d.WellLinked) (habove : ∀ n, d.ancestor? parent n ≠ some child) :
    WellFounded fun c id => c ∈ d'.children id := by
  -- Below the child nothing has changed.
  have hbelow : ∀ id, (∃ n, d.ancestor? id n = some child) →
      Acc (fun c id => c ∈ d'.children id) id := by
    intro id
    induction id using hd.acyclic.induction with
    | _ id ih =>
      rintro ⟨n, hn⟩
      refine Acc.intro id fun c hc => ?_
      rcases h.mem_children_iff.mp hc with hc | ⟨rfl, -⟩
      · exact ih c hc ⟨n + 1, (ancestor?_of_parent? (hd.mem_children_iff.mp hc) n).trans hn⟩
      · exact absurd hn (habove n)
  refine ⟨fun id => ?_⟩
  induction id using hd.acyclic.induction with
  | _ id ih =>
    refine Acc.intro id fun c hc => ?_
    rcases h.mem_children_iff.mp hc with hc | ⟨-, rfl⟩
    · exact ih c hc
    · exact hbelow c ⟨0, rfl⟩

/-- A loose node put below an element that does not lie below it. -/
theorem wellLinked (hd : d.WellLinked) (hparent : d.isElement parent) (hchild : d.IsLoose child)
    (habove : ∀ n, d.ancestor? parent n ≠ some child) : d'.WellLinked := by
  have hnew : ∀ id, child ∉ d.children id := by
    intro id hc
    have hp := hd.mem_children_iff.mp hc
    rw [hchild.parent?] at hp
    simp at hp
  constructor
  · constructor
    · exact h.acyclic hd habove
    · intro id c hc
      rw [h.size, h.parent?]
      rcases h.mem_children_iff.mp hc with hc | ⟨rfl, rfl⟩
      · have hne : c ≠ child := fun heq => hnew id (heq ▸ hc)
        rw [if_neg hne]
        exact hd.linked id c hc
      · exact ⟨hchild.lt, if_pos rfl⟩
    · intro id hne
      show d'.isElement id = true
      rw [isElement_eq_isSome_name?, h.name?, ← isElement_eq_isSome_name?]
      by_cases hid : id = parent
      · rw [hid]
        exact hparent
      · rw [h.children_of_ne id hid] at hne
        exact hd.elements id hne
    · intro id hid
      have hmem : id ∈ d.outermost := h.outermost ▸ hid
      have hne : id ≠ child := fun heq => hchild.not_mem (heq ▸ hmem)
      rw [h.size, h.parent?, if_neg hne]
      exact hd.outermost id hmem
  · intro id p hp
    rw [h.parent?] at hp
    rw [h.mem_children_iff]
    split at hp
    · rename_i hid
      exact .inr ⟨(Option.some_inj.mp hp).symm, hid⟩
    · exact .inl (hd.listed hp)
  · intro id
    by_cases hid : id = parent
    · obtain ⟨before, after, hbefore, hafter⟩ := h.children_parent
      have hnodup := hd.nodup parent
      have hnot := hnew parent
      rw [hbefore] at hnodup hnot
      rw [hid, hafter]
      exact List.nodup_middle.mpr (List.nodup_cons.mpr ⟨hnot, hnodup⟩)
    · rw [h.children_of_ne id hid]
      exact hd.nodup id

theorem grown (hchild : d.parent? child = none) : Grown d d' where
  root := (List.cons.inj h.outermost).1
  parent? {id p} hp := by
    have hne : id ≠ child := by
      rintro rfl
      rw [hchild] at hp
      simp at hp
    rw [h.parent?, if_neg hne, hp]
  name? {id name} hn := by rw [h.name?, hn]

/-- What is attached is none of the old nodes of an earlier drawing. -/
theorem extended {d₀ : Drawing} (h₀ : Extended d₀ d) (hchild : d₀.nodes.size ≤ child) :
    Extended d₀ d' where
  size_le := h.size ▸ h₀.size_le
  outermost := h.outermost.trans h₀.outermost
  parent? id hid := by
    rw [h.parent?, if_neg (Nat.ne_of_lt (Nat.lt_of_lt_of_le hid hchild)), h₀.parent? id hid]
  name? id hid := by rw [h.name?, h₀.name? id hid]

end Attached

theorem isLoose_pushNode (hd : d.WellLinked) (content : NodeContent) :
    (d.pushNode content none).1.IsLoose d.nodes.size where
  lt := by
    rw [pushNode, Array.size_push]
    exact Nat.lt_succ_self _
  parent? := by
    rw [parent?_pushNode]
    rcases h : d.parent? d.nodes.size with _ | p
    · rfl
    · exact absurd (lt_of_parent? h) (Nat.lt_irrefl _)
  not_mem hmem := Nat.lt_irrefl _ (hd.outermost d.nodes.size hmem).1

/-- Nothing that was there before lies below a new node. -/
theorem Extended.ancestor?_ne (h : Extended d d') (hd : d.WellLinked) {id child : NodeId}
    (hid : id < d.nodes.size) (hchild : d.nodes.size ≤ child) (n : Nat) :
    d'.ancestor? id n ≠ some child := by
  intro ha
  exact absurd (h.ancestor_lt hd hid ha) (Nat.not_lt_of_le hchild)

/-! ### Text and nodes put into elements -/

section Tables

variable (d) (id i : NodeId) (change : Node → Node)

theorem getElem?_modifyNode : (d.modifyNode id change).nodes[i]? =
    if id = i then d.nodes[i]?.map change else d.nodes[i]? :=
  Array.getElem?_modify

theorem size_modifyNode : (d.modifyNode id change).nodes.size = d.nodes.size :=
  Array.size_modify

theorem element?_modifyNode (h : ∀ node, (change node).content = node.content) :
    (d.modifyNode id change).element? i = d.element? i := by
  rw [element?_eq, getElem?_modifyNode, element?_eq]
  split
  · rcases d.nodes[i]? with _ | node
    · rfl
    · simp [h]
  · rfl

theorem name?_modifyNode (h : ∀ node, (change node).content = node.content) :
    (d.modifyNode id change).name? i = d.name? i := by
  rw [name?, element?_modifyNode d id i change h, name?]

theorem parent?_modifyNode (h : ∀ node, (change node).parent = node.parent) :
    (d.modifyNode id change).parent? i = d.parent? i := by
  rw [parent?, getElem?_modifyNode, parent?]
  split
  · rcases d.nodes[i]? with _ | node
    · rfl
    · exact h node
  · rfl

theorem children_modifyNode (h : ∀ node, (change node).children = node.children) :
    (d.modifyNode id change).children i = d.children i := by
  unfold children
  rw [getElem?_modifyNode]
  by_cases hid : id = i
  · rw [if_pos hid]
    rcases d.nodes[i]? with _ | node
    · rfl
    · exact h node
  · rw [if_neg hid]

end Tables

/-- A node that names its parent already, listed by it at some place. -/
theorem attached_modifyChildren (d d' : Drawing) {parent child : NodeId}
    {change : List NodeId → List NodeId}
    (hsize : d'.nodes.size = d.nodes.size) (houter : d'.outermost = d.outermost)
    (hname : ∀ id, d'.name? id = d.name? id)
    (hparent : ∀ id, d'.parent? id = if id = child then some parent else d.parent? id)
    (hchildren : ∀ id, d'.children id = d.children id) (hlt : parent < d.nodes.size)
    (hchange : ∀ l, ∃ before after, l = before ++ after ∧ change l = before ++ child :: after) :
    Attached d (d'.modifyChildren parent change) parent child where
  size := (size_modifyNode d' parent _).trans hsize
  outermost := houter
  name? id := by
    rw [modifyChildren, name?_modifyNode, hname]
    exact fun _ => rfl
  parent? id := by
    rw [modifyChildren, parent?_modifyNode, hparent]
    exact fun _ => rfl
  children_of_ne id hne := by
    rw [← hchildren, children, children, modifyChildren, getElem?_modifyNode,
      if_neg (Ne.symm hne)]
  children_parent := by
    have hat : (d'.modifyChildren parent change).children parent =
        change (d'.children parent) := by
      have hnode := Array.getElem?_eq_getElem (hsize ▸ hlt : parent < d'.nodes.size)
      rw [children, modifyChildren, getElem?_modifyNode, if_pos rfl, children, hnode]
      rfl
    rw [hat, hchildren]
    exact hchange _

theorem attached_appendText {parent : NodeId} (hlt : parent < d.nodes.size) (value : String) :
    Attached (d.pushNode (.text value) none).1 (d.appendText parent value) parent
      d.nodes.size := by
  have hsize : parent < (d.pushNode (.text value) none).1.nodes.size :=
    Nat.lt_of_lt_of_le hlt (extended_pushNode d (.text value)).size_le
  -- The text is entered with its parent, and compared with text entered without one.
  have hnode : ∀ id, (d.pushNode (.text value) (some parent)).1.nodes[id]? =
      if id = d.nodes.size then some ⟨.text value, some parent, []⟩ else d.nodes[id]? :=
    fun _ => Array.getElem?_push
  refine attached_modifyChildren (d.pushNode (.text value) none).1
    (d.pushNode (.text value) (some parent)).1 ((Array.size_push _).trans (Array.size_push _).symm)
    rfl ?_ ?_ ?_ hsize fun l => ⟨l, [], (List.append_nil l).symm, rfl⟩
  · intro id
    rw [name?, element?_eq, hnode, name?, element?_eq, getElem?_pushNode]
    split <;> rfl
  · intro id
    rw [parent?, hnode, parent?, getElem?_pushNode]
    split <;> rfl
  · intro id
    unfold children
    rw [hnode, getElem?_pushNode]
    by_cases h : id = d.nodes.size
    · rw [if_pos h, if_pos h]
    · rw [if_neg h, if_neg h]

theorem attached_insertChild {parent child : NodeId} (hparent : parent < d.nodes.size)
    (hchild : child < d.nodes.size) (index : Nat) :
    Attached d (d.insertChild parent index child) parent child := by
  refine attached_modifyChildren d
    (d.modifyNode child fun node => { node with parent := some parent })
    (size_modifyNode d child _) rfl ?_ ?_ ?_ hparent
    fun l => ⟨l.take index, l.drop index, (List.take_append_drop index l).symm, rfl⟩
  · exact fun id => name?_modifyNode d child id _ fun _ => rfl
  · intro id
    rw [parent?, getElem?_modifyNode]
    by_cases h : id = child
    · rw [if_pos h, if_pos h.symm, Array.getElem?_eq_getElem (h ▸ hchild)]
      rfl
    · rw [if_neg h, if_neg (Ne.symm h), parent?]
  · exact fun id => children_modifyNode d child id _ fun _ => rfl

namespace WellLinked

variable (hd : d.WellLinked)
include hd

theorem appendText {parent : NodeId} (hparent : d.isElement parent) (value : String) :
    (d.appendText parent value).WellLinked ∧ Extended d (d.appendText parent value) := by
  have hlt := lt_size_of_isElement hparent
  have hattached := attached_appendText hlt value
  have hextended := extended_pushNode d (.text value)
  refine ⟨?_, hattached.extended hextended (Nat.le_refl _)⟩
  refine hattached.wellLinked (hd.pushNode _) (hextended.isElement hparent)
    (isLoose_pushNode hd _) ?_
  exact fun n => hextended.ancestor?_ne hd hlt (Nat.le_refl _) n

theorem insertChild {parent child : NodeId} (hparent : d.isElement parent)
    (hchild : d.IsLoose child) (habove : ∀ n, d.ancestor? parent n ≠ some child) (index : Nat) :
    (d.insertChild parent index child).WellLinked ∧
      Attached d (d.insertChild parent index child) parent child := by
  have hattached := attached_insertChild (lt_size_of_isElement hparent) hchild.lt index
  exact ⟨hattached.wellLinked hd hparent hchild habove, hattached⟩

/-- A new element put below an old one. -/
theorem insertNew {d₀ : Drawing} (hd₀ : d₀.WellLinked) (h₀ : Extended d₀ d)
    {parent child : NodeId} (hparent : d₀.isElement parent) (hchild : d.IsLoose child)
    (hnew : d₀.nodes.size ≤ child) (index : Nat) :
    (d.insertChild parent index child).WellLinked ∧
      Extended d₀ (d.insertChild parent index child) := by
  have hlt := lt_size_of_isElement hparent
  obtain ⟨hlinked, hattached⟩ := hd.insertChild (h₀.isElement hparent) hchild
    (fun n => h₀.ancestor?_ne hd₀ hlt hnew n) index
  exact ⟨hlinked, hattached.extended h₀ hnew⟩

/-! ### Prepared drawings -/

theorem injectStyle {svg : NodeId} (hsvg : d.isElement svg) (css : String) :
    (d.injectStyle svg css).WellLinked ∧ Extended d (d.injectStyle svg css) := by
  unfold Drawing.injectStyle
  split
  · exact ⟨hd, .refl d⟩
  · have hcreated := hd.pushNode (.element ⟨"style", [], [("type", "text/css")]⟩)
    have hextended := extended_pushNode d (.element ⟨"style", [], [("type", "text/css")]⟩)
    have hloose := isLoose_pushNode hd (.element ⟨"style", [], [("type", "text/css")]⟩)
    have helement : (d.createElement "style" [("type", "text/css")]).1.isElement d.nodes.size := by
      rw [isElement, element?_eq, createElement, getElem?_pushNode, if_pos rfl]
      rfl
    obtain ⟨htext, htextended⟩ := hcreated.appendText helement css
    exact htext.insertNew hd (hextended.trans htextended) hsvg (hloose.extended htextended)
      (Nat.le_refl _) 0

theorem injectScript {svg : NodeId} (hsvg : d.isElement svg) (href : String) :
    (d.injectScript svg href).WellLinked ∧ Extended d (d.injectScript svg href) := by
  have hskeleton := skeleton_ensureNamespace d "xlink" xlinkUri
  have hd' := hd.of_skeleton_eq hskeleton
  have hextended := extended_of_skeleton_eq hskeleton
  unfold Drawing.injectScript
  simp only []
  split
  · exact ⟨hd', hextended⟩
  · obtain ⟨hlinked, hscript⟩ := (hd'.pushNode _).insertNew hd' (extended_pushNode _ _)
      (hextended.isElement hsvg) (isLoose_pushNode hd' _) (Nat.le_refl _) _
    exact ⟨hlinked, hextended.trans hscript⟩

theorem wire (r : FoldRules) : (d.wire r).1.WellLinked ∧ Extended d (d.wire r).1 := by
  have hskeleton := skeleton_eq_of_bare_eq (bare_wire d r)
  exact ⟨hd.of_skeleton_eq hskeleton, extended_of_skeleton_eq hskeleton⟩

/-- A prepared drawing is well linked, and nothing old was attached in it. -/
theorem prepare {r : FoldRules} {s : StyleRules} {options : PrepareOptions} {w : Wiring}
    (h : d.prepare r s options = some (d', w)) : d'.WellLinked ∧ Extended d d' := by
  obtain ⟨svg, hsvg, heq⟩ := Option.map_eq_some_iff.mp h
  have helement : d.isElement svg :=
    isElement_of_isNamed (List.find?_eq_some_iff_append.mp hsvg).1
  obtain ⟨hwired, hextended⟩ := hd.wire r
  -- The stylesheet, if there is to be one.
  have hstyled : ∀ d₁ : Drawing, d₁ = (if options.inlineStyle then
      (d.wire r).1.injectStyle svg (stylesheet r s) else (d.wire r).1) →
      d₁.WellLinked ∧ Extended d d₁ := by
    rintro d₁ rfl
    split
    · obtain ⟨hlinked, hmore⟩ := hwired.injectStyle (hextended.isElement helement)
        (stylesheet r s)
      exact ⟨hlinked, hextended.trans hmore⟩
    · exact ⟨hwired, hextended⟩
  obtain ⟨hlinked, hmore⟩ := hstyled _ rfl
  obtain ⟨rfl, -⟩ := Prod.mk.inj heq
  rcases options.scriptHref with _ | href
  · exact ⟨hlinked, hmore⟩
  · obtain ⟨hlinked', hmore'⟩ := hlinked.injectScript (hmore.isElement helement) href
    exact ⟨hlinked', hmore.trans hmore'⟩

end WellLinked

end Drawing
end GraphFolding
