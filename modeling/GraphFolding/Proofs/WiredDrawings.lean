/-
Drawings that are wired already.

* `Drawing.IsWired` — every link bears the cluster it refers to, and every placeholder edge is
  hidden;
* `isWired_wire` — a wired drawing is such a one;
* `IsWired.wire_eq` — and wiring leaves it as it is.
-/
import GraphFolding.Proofs.FoldActions
namespace GraphFolding

open ClassList (IsWord)

theorem setEntry_eq_self {name value : String} {l : List (String × String)}
    (h : l.lookup name = some value) : setEntry name value l = l := by
  induction l with
  | nil => simp at h
  | cons entry rest ih =>
    obtain ⟨other, old⟩ := entry
    rw [lookup_cons_eq_ite] at h
    rw [setEntry]
    by_cases ho : other = name
    · rw [if_pos ho.symm] at h
      rw [if_pos ho, Option.some_inj.mp h]
    · rw [if_neg (Ne.symm ho)] at h
      rw [if_neg ho, ih h]

theorem foldl_eq_self {α β : Type} {f : α → β → α} {a : α} {l : List β}
    (h : ∀ b ∈ l, f a b = a) : l.foldl f a = a := by
  induction l with
  | nil => rfl
  | cons b l ih =>
    rw [List.foldl_cons, h b List.mem_cons_self]
    exact ih fun c hc => h c (List.mem_cons_of_mem b hc)

namespace Drawing

variable {d : Drawing} {r : FoldRules}

/-! ### Changes that change nothing -/

theorem setAttribute_eq_self {id : NodeId} {name value : String}
    (h : d.attribute? id name = some value) : d.setAttribute id name value = d := by
  refine (modifyElement_congr fun e he => ?_).trans (modifyElement_id d id)
  rw [attribute?, he, Option.bind_some] at h
  rw [Element.setAttribute, setEntry_eq_self h]

/-- Whether the class list of an element holds a word, and is in normal form. -/
def Bears (d : Drawing) (id : NodeId) (word : String) : Prop :=
  ∃ value, d.attribute? id "class" = some value ∧ ClassList.switch value word true = value

theorem Bears.setClass_eq {id : NodeId} {word : String} (h : d.Bears id word) :
    d.setClass id word true = d := by
  obtain ⟨value, hvalue, hswitch⟩ := h
  rw [setClass, if_pos rfl, addClass, hvalue, Option.getD_some, hswitch]
  exact setAttribute_eq_self hvalue

theorem bears_setClass {word : String} (hw : IsWord word) {id : NodeId} (hid : d.isElement id) :
    (d.setClass id word true).Bears id word := by
  refine ⟨ClassList.switch ((d.attribute? id "class").getD "") word true, ?_,
    ClassList.switch_switch hw _ _⟩
  rw [setClass, if_pos rfl, addClass, attribute?_setAttribute, if_pos ⟨rfl, rfl, hid⟩]

theorem Bears.setClass {word : String} {id : NodeId} (h : d.Bears id word) (other : NodeId) :
    (d.setClass other word true).Bears id word := by
  by_cases hid : other = id
  · subst hid
    rwa [h.setClass_eq]
  · obtain ⟨value, hvalue, hswitch⟩ := h
    refine ⟨value, ?_, hswitch⟩
    rw [attribute?, element?_setClass_of_ne hid, ← attribute?, hvalue]

/-- Once a word has been switched on in several elements, each of them bears it. -/
theorem bears_writeAll {word : String} (hw : IsWord word) {id : NodeId} {ids : List NodeId} :
    ∀ {d : Drawing}, (id ∈ ids ∧ d.isElement id = true) ∨ d.Bears id word →
    (d.writeAll (ids.map (⟨·, word, true⟩))).Bears id word := by
  induction ids with
  | nil =>
    intro d h
    exact h.resolve_left (by simp)
  | cons other ids ih =>
    intro d h
    rw [List.map_cons, writeAll_cons]
    refine ih ?_
    rcases h with ⟨hmem, hid⟩ | h
    · rcases List.mem_cons.mp hmem with rfl | hmem
      · exact .inr (bears_setClass hw hid)
      · have hbare := bare_eq_of_unclassed_eq (unclassed_setClass d other word true)
        exact .inl ⟨hmem, (isElement_eq hbare id).trans hid⟩
    · exact .inr (h.setClass other)

/-! ### References -/

/-- A link refers to the same, if the attributes that may hold its reference are the same. -/
theorem reference?_congr {d' : Drawing} {link link' : NodeId}
    (h : ∀ key ∈ r.hrefAttributes, d'.attribute? link' key = d.attribute? link key) :
    d'.reference? r link' = d.reference? r link := by
  have hvalues : ∀ f : String → Option String,
      r.hrefAttributes.findSome? f = (r.hrefAttributes.map f).findSome? id :=
    fun f => by rw [List.findSome?_map, Function.id_comp]
  rw [reference?, reference?, hvalues, hvalues, List.map_congr_left h]

theorem reference?_stampAll (r : FoldRules) (links : List NodeId) (link : NodeId) :
    ∀ (d : Drawing), (d.stampAll r links).reference? r link = d.reference? r link := by
  induction links with
  | nil => exact fun _ => rfl
  | cons first links ih => exact fun d => (ih _).trans (reference?_stampLink d r first link)

theorem reference?_wire (hhref : "class" ∉ r.hrefAttributes) (link : NodeId) :
    (d.wire r).1.reference? r link = d.reference? r link := by
  rw [← reference?_stampAll r d.anchors link d, wire_eq]
  exact reference?_congr fun key hkey =>
    attribute?_eq (unclassed_writeAll ..) (ne_of_mem_of_not_mem hkey hhref) link

/-! ### Wired drawings -/

/-- A drawing whose links bear the clusters they refer to, and whose placeholder edges are
hidden. -/
structure IsWired (d : Drawing) (r : FoldRules) : Prop where
  stamped : ∀ link ∈ d.anchors, ∀ cluster ∈ d.reference? r link,
    d.attribute? link r.clusterAttribute = some cluster
  hidden : ∀ id ∈ d.placeholderContainers r, d.Bears id r.hiddenClass

theorem isWired_wire (hword : IsWord r.hiddenClass) (hcluster : r.clusterAttribute ≠ "class")
    (hhref : "class" ∉ r.hrefAttributes) (hd : d.ParentsAreElements) :
    (d.wire r).1.IsWired r := by
  have hbare := bare_wire d r
  constructor
  · intro link hlink cluster hreference
    rw [anchors_eq hbare] at hlink
    rw [reference?_wire hhref] at hreference
    rw [attribute?_wire d r link hcluster, if_pos ⟨hlink, rfl⟩, hreference]
    rfl
  · intro id hid
    obtain ⟨link, hlink, hrefers, hancestor⟩ := mem_placeholderContainers.mp hid
    rw [anchors_eq hbare] at hlink
    rw [refersToPlaceholder, reference?_wire hhref, ← refersToPlaceholder] at hrefers
    rw [ancestor?_eq hbare] at hancestor
    have hmem : id ∈ d.placeholderContainers r :=
      mem_placeholderContainers.mpr ⟨link, hlink, hrefers, hancestor⟩
    have helement : (d.stampAll r d.anchors).isElement id = true := by
      rw [isElement_eq (bare_stampAll r d.anchors d)]
      exact isElement_of_mem_placeholderContainers hd hmem
    rw [wire_eq]
    exact bears_writeAll hword (.inl ⟨hmem, helement⟩)

/-- Wiring leaves a wired drawing as it is. -/
theorem IsWired.wire_eq (h : d.IsWired r) : (d.wire r).1 = d := by
  have hstamped : d.stampAll r d.anchors = d := by
    refine foldl_eq_self fun link hlink => ?_
    unfold stampLink
    split
    · rename_i cluster hreference
      exact setAttribute_eq_self (h.stamped link hlink cluster hreference)
    · rfl
  rw [Drawing.wire_eq, hstamped, writeAll, List.foldl_map]
  exact foldl_eq_self fun id hid => (h.hidden id hid).setClass_eq

end Drawing
end GraphFolding
