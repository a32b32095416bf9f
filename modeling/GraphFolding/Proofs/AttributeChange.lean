/-
What changes of attributes leave alone.

`Drawing.bare` takes every attribute away, `Drawing.unclassed` every class list.  Whatever
is read off what is left is the same before and after a change of attributes, or of class
lists:

* `bare_setAttribute`, `unclassed_setClass` — a change touches nothing but what it names;
* `anchors_eq`, `ancestor?_eq`, `descendantText?_eq`, `attribute?_eq` — what two drawings
  have in common if they are the same but for attributes, or class lists;
* `hasClass_setClass_any`, `hasClass_setClass` — switching a class word decides about that word of
  that element.
-/
import GraphFolding.Drawing.Edit
import GraphFolding.Drawing.Traversal
import GraphFolding.Proofs.ClassWords
namespace GraphFolding

/-! ### Attributes set -/

theorem lookup_cons_eq_ite {α : Type} (key other : String) (old : α)
    (rest : List (String × α)) :
    ((other, old) :: rest).lookup key = if key = other then some old else rest.lookup key := by
  rw [List.lookup_cons]
  by_cases h : key = other
  · simp [h]
  · simp [beq_false_of_ne h, h]

theorem lookup_setEntry (name key value : String) (l : List (String × String)) :
    (setEntry name value l).lookup key = if key = name then some value else l.lookup key := by
  induction l with
  | nil => exact lookup_cons_eq_ite key name value []
  | cons entry rest ih =>
    obtain ⟨other, old⟩ := entry
    rw [setEntry]
    by_cases ho : other = name
    · rw [if_pos ho, lookup_cons_eq_ite, lookup_cons_eq_ite, ho]
      split <;> rfl
    · rw [if_neg ho, lookup_cons_eq_ite, lookup_cons_eq_ite, ih]
      by_cases hk : key = other
      · rw [if_pos hk, if_neg fun h => ho (hk ▸ h), if_pos hk]
      · rw [if_neg hk, if_neg hk]

theorem filter_setEntry (name value : String) (l : List (String × String)) :
    (setEntry name value l).filter (·.1 ≠ name) = l.filter (·.1 ≠ name) := by
  induction l with
  | nil => simp [setEntry]
  | cons entry rest ih =>
    obtain ⟨other, old⟩ := entry
    rw [setEntry]
    by_cases ho : other = name
    · simp [ho]
    · rw [if_neg ho, List.filter_cons, List.filter_cons, ih]

theorem lookup_filter_ne {name key : String} (h : key ≠ name) (l : List (String × String)) :
    (l.filter (·.1 ≠ name)).lookup key = l.lookup key := by
  induction l with
  | nil => rfl
  | cons entry rest ih =>
    obtain ⟨other, old⟩ := entry
    rw [List.filter_cons]
    by_cases ho : other = name
    · rw [if_neg (by simp [ho]), ih, lookup_cons_eq_ite, if_neg fun hk => h (hk.trans ho)]
    · rw [if_pos (by simp [ho]), lookup_cons_eq_ite, lookup_cons_eq_ite, ih]

/-! ### Drawings with less in their elements -/

/-- An element without its attributes. -/
def Element.bare (e : Element) : Element := { e with attributes := [] }

/-- An element without its class list. -/
def Element.unclassed (e : Element) : Element :=
  { e with attributes := e.attributes.filter (·.1 ≠ "class") }

theorem Element.unclassed_setAttribute (e : Element) (value : String) :
    (e.setAttribute "class" value).unclassed = e.unclassed := by
  simp only [Element.setAttribute, Element.unclassed, filter_setEntry]

theorem Node.mapElement_children (change : Element → Element) (node : Node) :
    (node.mapElement change).children = node.children := by
  unfold Node.mapElement
  split <;> rfl

theorem Node.mapElement_parent (change : Element → Element) (node : Node) :
    (node.mapElement change).parent = node.parent := by
  unfold Node.mapElement
  split <;> rfl

namespace Drawing

/-- A drawing with every element changed. -/
def mapElements (d : Drawing) (change : Element → Element) : Drawing :=
  { d with nodes := d.nodes.map (·.mapElement change) }

/-- A drawing without its attributes. -/
def bare (d : Drawing) : Drawing := d.mapElements Element.bare

/-- A drawing without its class lists. -/
def unclassed (d : Drawing) : Drawing := d.mapElements Element.unclassed

/-- Whether a node is an element. -/
def isElement (d : Drawing) (id : NodeId) : Bool := (d.element? id).isSome

theorem element?_eq (d : Drawing) (id : NodeId) :
    d.element? id = d.nodes[id]?.bind fun node =>
      match node.content with
      | .element e => some e
      | _ => none := by
  unfold element?
  rcases d.nodes[id]? with _ | ⟨content, parent, children⟩
  · rfl
  · cases content <;> rfl

theorem lt_size_of_isElement {d : Drawing} {id : NodeId} (h : d.isElement id) :
    id < d.nodes.size := by
  refine Nat.lt_of_not_le fun hle => ?_
  rw [isElement, element?_eq, Array.getElem?_eq_none hle] at h
  simp at h

section MapElements

variable (d : Drawing) (change : Element → Element) (id : NodeId)

theorem getElem?_mapElements :
    (d.mapElements change).nodes[id]? = d.nodes[id]?.map (·.mapElement change) :=
  Array.getElem?_map

theorem element?_mapElements :
    (d.mapElements change).element? id = (d.element? id).map change := by
  rw [element?_eq, element?_eq, getElem?_mapElements]
  rcases d.nodes[id]? with _ | ⟨content, parent, children⟩
  · rfl
  · cases content <;> rfl

theorem isElement_mapElements : (d.mapElements change).isElement id = d.isElement id := by
  rw [isElement, element?_mapElements, Option.isSome_map, isElement]

theorem children_mapElements : (d.mapElements change).children id = d.children id := by
  unfold children
  rw [getElem?_mapElements]
  rcases d.nodes[id]? with _ | node
  · rfl
  · exact node.mapElement_children change

theorem parent?_mapElements : (d.mapElements change).parent? id = d.parent? id := by
  unfold parent?
  rw [getElem?_mapElements]
  rcases d.nodes[id]? with _ | node
  · rfl
  · exact node.mapElement_parent change

theorem textAt_mapElements : (d.mapElements change).textAt id = d.textAt id := by
  unfold textAt
  rw [getElem?_mapElements]
  rcases d.nodes[id]? with _ | ⟨content, parent, children⟩
  · rfl
  · cases content <;> rfl

theorem mapElements_mapElements (change' : Element → Element) :
    (d.mapElements change).mapElements change' = d.mapElements (change' ∘ change) := by
  have hnodes : ((d.mapElements change).mapElements change').nodes =
      (d.mapElements (change' ∘ change)).nodes := by
    refine Array.ext_getElem? fun e => ?_
    rw [getElem?_mapElements, getElem?_mapElements, getElem?_mapElements]
    rcases d.nodes[e]? with _ | ⟨content, parent, children⟩
    · rfl
    · cases content <;> rfl
  exact congrArg (fun nodes => ({ d with nodes } : Drawing)) hnodes

end MapElements

/-! ### What is read off a drawing without its attributes -/

section Bare

variable (d : Drawing) (id : NodeId)

theorem bare_unclassed : d.unclassed.bare = d.bare := mapElements_mapElements d _ _

theorem isNamed_bare (localName : String) :
    d.bare.isNamed localName id = d.isNamed localName id := by
  rw [isNamed, bare, element?_mapElements, Option.any_map, isNamed]
  rfl

theorem ancestor?_bare (n : Nat) : d.bare.ancestor? id n = d.ancestor? id n := by
  induction n generalizing id with
  | zero => rfl
  | succ n ih =>
    rw [ancestor?, ancestor?, bare, parent?_mapElements]
    exact congrArg _ (funext ih)

theorem sizeWithin_bare (n : Nat) : d.bare.sizeWithin n id = d.sizeWithin n id := by
  induction n generalizing id with
  | zero => rfl
  | succ n ih =>
    rw [sizeWithin, sizeWithin, funext ih, bare, children_mapElements]

theorem walk_bare (n : Nat) (stack : List NodeId) : d.bare.walk n stack = d.walk n stack := by
  induction n generalizing stack with
  | zero => rfl
  | succ n ih =>
    rcases stack with _ | ⟨id, stack⟩
    · rfl
    · rw [walk, walk, ih, bare, children_mapElements]

theorem descendants_bare : d.bare.descendants id = d.descendants id := by
  have hsize : d.bare.nodes.size = d.nodes.size := Array.size_map
  rw [descendants, walk_bare, size, sizeWithin_bare, hsize]
  rfl

theorem elementsNamed_bare (localName : String) :
    d.bare.elementsNamed localName = d.elementsNamed localName := by
  rw [elementsNamed, descendants_bare, elementsNamed]
  exact congrArg (List.filter · _) (funext fun id => isNamed_bare d id localName)

theorem textOf_bare : d.bare.textOf id = d.textOf id := by
  have htext : d.bare.textAt = d.textAt := funext (textAt_mapElements d Element.bare)
  rw [textOf, descendants_bare, htext, textOf]

theorem descendantText?_bare (localName : String) :
    d.bare.descendantText? id localName = d.descendantText? id localName := by
  rw [descendantText?, descendants_bare, funext fun id => isNamed_bare d id localName,
    funext (textOf_bare d), descendantText?]

end Bare

section Common

variable {d d' : Drawing} (h : d'.bare = d.bare)
include h

theorem isElement_eq (id : NodeId) : d'.isElement id = d.isElement id := by
  rw [← isElement_mapElements d' Element.bare, ← bare, h, bare, isElement_mapElements]

theorem parent?_eq (id : NodeId) : d'.parent? id = d.parent? id := by
  rw [← parent?_mapElements d' Element.bare, ← bare, h, bare, parent?_mapElements]

theorem ancestor?_eq (id : NodeId) (n : Nat) : d'.ancestor? id n = d.ancestor? id n := by
  rw [← ancestor?_bare, h, ancestor?_bare]

theorem descendants_eq (id : NodeId) : d'.descendants id = d.descendants id := by
  rw [← descendants_bare, h, descendants_bare]

theorem anchors_eq : d'.anchors = d.anchors := by
  rw [anchors, ← elementsNamed_bare, h, elementsNamed_bare, anchors]

theorem root_eq : d'.root = d.root := congrArg (·.root) h

theorem descendantText?_eq (id : NodeId) (localName : String) :
    d'.descendantText? id localName = d.descendantText? id localName := by
  rw [← descendantText?_bare, h, descendantText?_bare]

end Common

theorem bare_eq_of_unclassed_eq {d d' : Drawing} (h : d'.unclassed = d.unclassed) :
    d'.bare = d.bare := by
  rw [← bare_unclassed, h, bare_unclassed]

theorem attribute?_unclassed (d : Drawing) (id : NodeId) {name : String} (h : name ≠ "class") :
    d.unclassed.attribute? id name = d.attribute? id name := by
  rw [attribute?, unclassed, element?_mapElements, attribute?]
  rcases d.element? id with _ | e
  · rfl
  · exact lookup_filter_ne h e.attributes

theorem attribute?_eq {d d' : Drawing} (h : d'.unclassed = d.unclassed) {name : String}
    (hname : name ≠ "class") (id : NodeId) : d'.attribute? id name = d.attribute? id name := by
  rw [← attribute?_unclassed d' id hname, h, attribute?_unclassed d id hname]

/-! ### One attribute set -/

theorem getElem?_modifyElement (d : Drawing) (id e : NodeId) (change : Element → Element) :
    (d.modifyElement id change).nodes[e]? =
      if id = e then d.nodes[e]?.map (·.mapElement change) else d.nodes[e]? :=
  Array.getElem?_modify

theorem element?_modifyElement (d : Drawing) (id e : NodeId) (change : Element → Element) :
    (d.modifyElement id change).element? e =
      if id = e then (d.element? e).map change else d.element? e := by
  rw [element?_eq, element?_eq, getElem?_modifyElement]
  by_cases h : id = e
  · rw [if_pos h, if_pos h]
    rcases d.nodes[e]? with _ | ⟨content, parent, children⟩
    · rfl
    · cases content <;> rfl
  · rw [if_neg h, if_neg h]

/-- What is forgotten of every element may be changed in one of them. -/
theorem mapElements_modifyElement {forget change : Element → Element}
    (h : ∀ e, forget (change e) = forget e) (d : Drawing) (id : NodeId) :
    (d.modifyElement id change).mapElements forget = d.mapElements forget := by
  have hnodes : ((d.modifyElement id change).mapElements forget).nodes =
      (d.mapElements forget).nodes := by
    refine Array.ext_getElem? fun e => ?_
    rw [getElem?_mapElements, getElem?_mapElements, getElem?_modifyElement]
    by_cases hid : id = e
    · rw [if_pos hid]
      rcases d.nodes[e]? with _ | ⟨content, parent, children⟩
      · rfl
      · cases content with
        | element el => simp [Node.mapElement, h]
        | _ => rfl
    · rw [if_neg hid]
  exact congrArg (fun nodes => ({ d with nodes } : Drawing)) hnodes

theorem bare_setAttribute (d : Drawing) (id : NodeId) (name value : String) :
    (d.setAttribute id name value).bare = d.bare := by
  have hforget : ∀ e : Element, (e.setAttribute name value).bare = e.bare := fun _ => rfl
  exact mapElements_modifyElement hforget d id

theorem attribute?_setAttribute (d : Drawing) (id e : NodeId) (name key value : String) :
    (d.setAttribute id name value).attribute? e key =
      if id = e ∧ key = name ∧ d.isElement e then some value else d.attribute? e key := by
  rw [attribute?, setAttribute, element?_modifyElement, attribute?, isElement]
  by_cases h : id = e
  · rcases d.element? e with _ | el
    · simp [h]
    · simp [h, Element.attribute?, Element.setAttribute, lookup_setEntry]
  · simp [h]

theorem unclassed_setAttribute (d : Drawing) (id : NodeId) (value : String) :
    (d.setAttribute id "class" value).unclassed = d.unclassed :=
  mapElements_modifyElement (fun e => e.unclassed_setAttribute value) d id

/-! ### One class word switched -/

/-- Switching a class word changes nothing but a class list. -/
theorem unclassed_setClass (d : Drawing) (id : NodeId) (word : String) (on : Bool) :
    (d.setClass id word on).unclassed = d.unclassed := by
  unfold setClass addClass removeClass
  split
  · exact unclassed_setAttribute d id _
  · split
    · exact unclassed_setAttribute d id _
    · rfl

theorem hasClass_eq_decide (d : Drawing) (id : NodeId) (word : String) :
    d.hasClass id word = ((d.attribute? id "class").any fun value =>
      decide (word ∈ ClassList.words value)) := by
  unfold hasClass
  rcases d.attribute? id "class" with _ | value
  · rfl
  · simp

theorem isElement_of_hasClass {d : Drawing} {id : NodeId} {word : String}
    (h : d.hasClass id word) : d.isElement id := by
  rw [hasClass, attribute?] at h
  rw [isElement]
  rcases hel : d.element? id with _ | e
  · simp [hel] at h
  · rfl

theorem attribute?_eq_none_of_not_isElement {d : Drawing} {id : NodeId} {name : String}
    (h : d.isElement id = false) : d.attribute? id name = none := by
  rw [isElement, Option.isSome_eq_false_iff, Option.isNone_iff_eq_none] at h
  rw [attribute?, h]
  rfl

theorem hasClass_eq_false_of_not_isElement {d : Drawing} {id : NodeId}
    (h : d.isElement id = false) (word : String) : d.hasClass id word = false := by
  rw [hasClass, attribute?_eq_none_of_not_isElement h]
  rfl

/-- A class word of a node after any text was switched in the class list of an element. -/
theorem hasClass_setClass_any (d : Drawing) (id : NodeId) (text : String) (on : Bool) (e : NodeId)
    (u : String) : (d.setClass id text on).hasClass e u =
      if id = e ∧ d.isElement e = true then ClassList.holdsAfter text u on (d.hasClass e u)
      else d.hasClass e u := by
  by_cases hid : id = e
  · subst hid
    cases hel : d.isElement id with
    | false =>
      -- No attribute can be set, before or after.
      have hsame : (d.setClass id text on).isElement id = false := by
        rw [isElement_eq (bare_eq_of_unclassed_eq (unclassed_setClass d id text on)), hel]
      rw [hasClass_eq_false_of_not_isElement hsame, hasClass_eq_false_of_not_isElement hel]
      simp
    | true =>
      rw [hasClass_eq_decide, hasClass_eq_decide, if_pos ⟨rfl, rfl⟩]
      unfold setClass addClass removeClass
      cases on with
      | true =>
        rw [if_pos rfl, attribute?_setAttribute, if_pos ⟨rfl, rfl, hel⟩, Option.any_some,
          ClassList.decide_mem_words_switch]
        rcases d.attribute? id "class" with _ | value <;> rfl
      | false =>
        rw [if_neg (by decide)]
        rcases hvalue : d.attribute? id "class" with _ | value
        · rw [hvalue]
          rfl
        · simp only []
          rw [attribute?_setAttribute, if_pos ⟨rfl, rfl, hel⟩, Option.any_some,
            ClassList.decide_mem_words_switch, Option.any_some]
  · have hother : (d.setClass id text on).attribute? e "class" = d.attribute? e "class" := by
      unfold setClass addClass removeClass
      split
      · rw [attribute?_setAttribute, if_neg fun h => hid h.1]
      · split
        · rw [attribute?_setAttribute, if_neg fun h => hid h.1]
        · rfl
    rw [hasClass, hother, if_neg fun h => hid h.1, hasClass]

/-- Switching a class word decides about that word of that element. -/
theorem hasClass_setClass {word : String} (hw : ClassList.IsWord word) (d : Drawing)
    (id e : NodeId) (u : String) (on : Bool) :
    (d.setClass id word on).hasClass e u =
      if id = e ∧ u = word then on && d.isElement e else d.hasClass e u := by
  rw [hasClass_setClass_any, ClassList.holdsAfter_of_isWord hw]
  cases hel : d.isElement e with
  | false => simp [hasClass_eq_false_of_not_isElement hel]
  | true =>
    by_cases hid : id = e
    · simp [hid]
    · simp [hid]

end Drawing
end GraphFolding
