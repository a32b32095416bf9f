/-
The elements of a drawing in document order, and of the markup that it holds.

* `Markup.places` — the elements in markup in document order, each with those around it and the
  text in it;
* `Drawing.StandsIn` — the elements at and around a node;
* `Drawing.IsAt` — an element of a drawing lies at such a place;
* `Drawing.Holds.places` — the elements of a drawing lie at the places of the markup that it
  holds, one after the other.
-/
import GraphFolding.Proofs.Forest
import GraphFolding.Proofs.Holding
import Mathlib.Data.List.Forall2
namespace GraphFolding

namespace Markup

mutual

/-- All text in markup, joined. -/
def innerText : Markup → String
  | element _ children => allText children
  | text value => value
  | _ => ""

/-- As `innerText`, for several of them. -/
def allText : List Markup → String
  | [] => ""
  | m :: ms => m.innerText ++ allText ms

end

/-- An element with those around it, the innermost first, and the text in it. -/
structure Place where
  lineage : List Element
  text : String

mutual

/-- The elements in markup that stands in others. -/
def places (above : List Element) : Markup → List Place
  | element e children => ⟨e :: above, allText children⟩ :: allPlaces (e :: above) children
  | _ => []

/-- As `places`, for several of them. -/
def allPlaces (above : List Element) : List Markup → List Place
  | [] => []
  | m :: ms => m.places above ++ allPlaces above ms

end

theorem allPlaces_eq_flatMap (above : List Element) (ms : List Markup) :
    allPlaces above ms = ms.flatMap (places above) := by
  induction ms with
  | nil => rfl
  | cons m ms ih => rw [allPlaces, ih, List.flatMap_cons]

end Markup

namespace Drawing

/-- The elements at a node and around it, the innermost first. -/
def StandsIn (d : Drawing) (id : NodeId) (lineage : List Element) : Prop :=
  ∀ n, (d.ancestor? id n).bind d.element? = lineage[n]?

/-- Whether an element lies at a place: in the same elements, and with the same text. -/
structure IsAt (d : Drawing) (id : NodeId) (p : Markup.Place) : Prop where
  lineage : ∀ n, (d.ancestor? id n).bind d.element? = p.lineage[n]?
  text : d.textOf id = p.text

variable {d : Drawing}

theorem StandsIn.eq {id : NodeId} {lineage lineage' : List Element} (h : d.StandsIn id lineage)
    (h' : d.StandsIn id lineage') : lineage = lineage' :=
  List.ext_getElem? fun n => (h n).symm.trans (h' n)

theorem standsIn_singleton {id : NodeId} {e : Element} (helement : d.element? id = some e)
    (hparent : d.parent? id = none) : d.StandsIn id [e] := by
  intro n
  cases n with
  | zero => exact helement
  | succ n =>
    rw [ancestor?, hparent]
    rfl

theorem StandsIn.cons {id p : NodeId} {e : Element} {lineage : List Element}
    (h : d.StandsIn p lineage) (helement : d.element? id = some e)
    (hparent : d.parent? id = some p) : d.StandsIn id (e :: lineage) := by
  intro n
  cases n with
  | zero => exact helement
  | succ n => rw [ancestor?_of_parent? hparent, List.getElem?_cons_succ, ← h n]

namespace WellLinked

/-- A node comes first, and then what is below its children. -/
theorem descendants_eq_cons (hd : d.WellLinked) (id : NodeId) :
    d.descendants id = id :: (d.children id).flatMap d.descendants := by
  have hwalk : d.descendants = d.preorderWithin d.nodes.size := funext hd.descendants_eq
  rw [hwalk]
  exact preorderWithin_eq_cons (depthAtMost_of_isForest hd.toIsForest id)

theorem textOf_eq_append (hd : d.WellLinked) (id : NodeId) :
    d.textOf id = d.textAt id ++ String.join ((d.children id).map d.textOf) := by
  have htext : ∀ c, (d.textOf c).toList = (d.descendants c).flatMap fun x => (d.textAt x).toList := by
    intro c
    rw [textOf, String.toList_join, List.flatMap_map]
  rw [← String.toList_inj, htext, hd.descendants_eq_cons, String.toList_append, String.toList_join,
    List.flatMap_cons, List.flatMap_map, List.flatMap_assoc]
  simp only [htext]

mutual

/-- The text below a node is the text in the markup held at it. -/
theorem textOf_of_holds (hd : d.WellLinked) {id : NodeId} : ∀ (m : Markup) {parent : Option NodeId},
    GraphFolding.Holds d.nodes parent id m → d.textOf id = m.innerText
  | .element e children, parent, h => by
    obtain ⟨ids, hnode, hall⟩ := h
    have htext := join_textOf_of_holdsAll hd children hall
    rw [hd.textOf_eq_append, children_of_getElem? hnode, htext, textAt, hnode, Markup.innerText]
    exact String.empty_append
  | .text value, parent, h => by
    rw [GraphFolding.Holds] at h
    rw [hd.textOf_eq_append, children_of_getElem? h, textAt, h]
    exact String.append_empty
  | .comment value, parent, h => by
    rw [GraphFolding.Holds] at h
    rw [hd.textOf_eq_append, children_of_getElem? h, textAt, h]
    rfl
  | .instruction target value, parent, h => by
    rw [GraphFolding.Holds] at h
    rw [hd.textOf_eq_append, children_of_getElem? h, textAt, h]
    rfl

/-- As `textOf_of_holds`, for several nodes. -/
theorem join_textOf_of_holdsAll (hd : d.WellLinked) : ∀ (ms : List Markup) {ids : List NodeId}
    {parent : Option NodeId}, HoldsAll d.nodes parent ids ms →
    String.join (ids.map d.textOf) = Markup.allText ms
  | [], ids, parent, h => by
    rw [HoldsAll] at h
    rw [h]
    rfl
  | m :: ms, ids, parent, h => by
    obtain ⟨id, rest, rfl, hm, hms⟩ := h
    rw [Markup.allText, ← textOf_of_holds hd m hm, ← join_textOf_of_holdsAll hd ms hms, List.map_cons,
      String.join_cons]

end

mutual

/-- The elements at and below a node lie at the places of the markup held at it. -/
theorem places_of_holds (hd : d.WellLinked) {id : NodeId} : ∀ (m : Markup) {parent : Option NodeId}
    {above : List Element}, GraphFolding.Holds d.nodes parent id m →
    (∀ n, (parent.bind (d.ancestor? · n)).bind d.element? = above[n]?) →
    List.Forall₂ d.IsAt ((d.descendants id).filter d.isElement) (m.places above)
  | .element e children, parent, above, h, habove => by
    have htext := hd.textOf_of_holds _ h
    obtain ⟨ids, hnode, hall⟩ := h
    have helement : d.element? id = some e := by rw [element?, hnode]
    have hlineage : ∀ n, (d.ancestor? id n).bind d.element? = (e :: above)[n]? := by
      intro n
      cases n with
      | zero => exact helement
      | succ n =>
        rw [List.getElem?_cons_succ, ← habove n, ancestor?, parent?_of_getElem? hnode]
    have hself : d.isElement id = true := by rw [isElement, helement]; rfl
    rw [hd.descendants_eq_cons, children_of_getElem? hnode, List.filter_cons_of_pos hself,
      Markup.places]
    exact .cons ⟨hlineage, htext⟩ (places_of_holdsAll hd children hall hlineage)
  | .text value, parent, above, h, _ => by
    rw [GraphFolding.Holds] at h
    have hself : d.isElement id = false := by rw [isElement, element?, h]; rfl
    rw [hd.descendants_eq_cons, children_of_getElem? h]
    simp [hself, Markup.places]
  | .comment value, parent, above, h, _ => by
    rw [GraphFolding.Holds] at h
    have hself : d.isElement id = false := by rw [isElement, element?, h]; rfl
    rw [hd.descendants_eq_cons, children_of_getElem? h]
    simp [hself, Markup.places]
  | .instruction target value, parent, above, h, _ => by
    rw [GraphFolding.Holds] at h
    have hself : d.isElement id = false := by rw [isElement, element?, h]; rfl
    rw [hd.descendants_eq_cons, children_of_getElem? h]
    simp [hself, Markup.places]

/-- As `places_of_holds`, for several nodes. -/
theorem places_of_holdsAll (hd : d.WellLinked) : ∀ (ms : List Markup) {ids : List NodeId} {parent : NodeId}
    {above : List Element}, HoldsAll d.nodes (some parent) ids ms →
    (∀ n, (d.ancestor? parent n).bind d.element? = above[n]?) →
    List.Forall₂ d.IsAt ((ids.flatMap d.descendants).filter d.isElement)
      (Markup.allPlaces above ms)
  | [], ids, parent, above, h, _ => by
    rw [HoldsAll] at h
    rw [h]
    exact .nil
  | m :: ms, ids, parent, above, h, habove => by
    obtain ⟨id, rest, rfl, hm, hms⟩ := h
    rw [List.flatMap_cons, List.filter_append, Markup.allPlaces]
    exact List.rel_append (places_of_holds hd m hm habove) (places_of_holdsAll hd ms hms habove)

end

end WellLinked

/-- The elements of a drawing lie at the places of the markup that it holds. -/
theorem Holds.places (hd : d.WellLinked) {doc : Markup.Document} (h : d.Holds doc) :
    List.Forall₂ d.IsAt ((d.descendants d.root).filter d.isElement) (doc.root.places []) :=
  hd.places_of_holds doc.root h.root fun _ => rfl

end Drawing
end GraphFolding
