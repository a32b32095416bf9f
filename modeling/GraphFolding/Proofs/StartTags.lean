/-
The start tags of a document.

* `Xml.allTags` — the start tags of a document in document order;
* `Xml.exists_sound_of_mem_allTags` — each of them keeps the rules it was read under;
* `Markup.allTags_read` — the start tags that are read of written markup.
-/
import GraphFolding.Proofs.Places
import GraphFolding.Proofs.StoredNames
namespace GraphFolding

open Xml

namespace Xml

mutual

/-- The start tags of a node and of what stands in it, in document order. -/
def Node.tags : Node → List Tag
  | .element tag children => tag :: allTags children
  | .text _ => []
  | .comment _ => []
  | .instruction .. => []

/-- As `Node.tags`, for several nodes. -/
def allTags : List Node → List Tag
  | [] => []
  | x :: xs => x.tags ++ allTags xs

end

theorem allTags_eq_flatMap (xs : List Node) : allTags xs = xs.flatMap Node.tags := by
  induction xs with
  | nil => rfl
  | cons x xs ih => rw [allTags, ih, List.flatMap_cons]

theorem tags_eq_nil {x : Node} (h : x.isElement = false) : x.tags = [] := by
  cases x with
  | element tag children => exact absurd h (by simp [Node.isElement])
  | _ => rfl

theorem allTags_eq_nil {xs : List Node} (h : ∀ x ∈ xs, x.isElement = false) : allTags xs = [] := by
  rw [allTags_eq_flatMap]
  exact List.flatMap_eq_nil_iff.mpr fun x hx => tags_eq_nil (h x hx)

mutual

theorem Node.exists_sound_of_mem_tags : ∀ (x : Node) {inherited : Scope}, x.Sound inherited →
    ∀ tag ∈ x.tags, ∃ around, tag.Sound around
  | .element tag children, inherited, h, t, ht => by
    rcases List.mem_cons.mp ht with rfl | ht
    · exact ⟨inherited, h.1⟩
    · exact exists_sound_of_mem_tags_of_allSound children h.2 t ht

/-- As `Node.exists_sound_of_mem_tags`, for several nodes. -/
theorem exists_sound_of_mem_tags_of_allSound : ∀ (xs : List Node) {inherited : Scope},
    AllSound inherited xs → ∀ tag ∈ allTags xs, ∃ around, tag.Sound around
  | x :: xs, _, h, t, ht => by
    rcases List.mem_append.mp ht with ht | ht
    · exact Node.exists_sound_of_mem_tags x h.1 t ht
    · exact exists_sound_of_mem_tags_of_allSound xs h.2 t ht

end

/-- The start tags of a document keep the rules they were read under. -/
theorem exists_sound_of_mem_allTags {text : String} {nodes : List Node}
    (h : readDocument text = .ok nodes) : ∀ tag ∈ allTags nodes, ∃ around, tag.Sound around :=
  exists_sound_of_mem_tags_of_allSound nodes (allSound_iff.mpr (readDocument_ensures text nodes h))

/-- The start tags of a text that is a document. -/
def tagsRead? (text : String) : Option (List Tag) := (readDocument text).toOption.map allTags

theorem exists_of_tagsRead? {text : String} {tags : List Tag} (h : tagsRead? text = some tags) :
    ∃ nodes, readDocument text = .ok nodes ∧ allTags nodes = tags := by
  obtain ⟨nodes, hread, htags⟩ := Option.map_eq_some_iff.mp h
  exact ⟨nodes, eq_ok_of_toOption hread, htags⟩

end Xml

/-! ### Start tags that are read of markup -/

namespace Markup

/-- The bindings in force in several elements, the innermost first, once they have been written. -/
def scopeWithin : List Element → Scope
  | [] => []
  | e :: above => e.readScope (scopeWithin above)

/-- The start tag that is read of an element in others. -/
def tagWithin? : List Element → Option Tag
  | [] => none
  | e :: above => some (e.readTag (scopeWithin above))

mutual

/-- The start tags that are read of markup are those of its elements. -/
theorem tags_read : ∀ (m : Markup) (above : List Element),
    (m.read (scopeWithin above)).tags.map some =
      (m.places above).map fun p => tagWithin? p.lineage
  | .element e children, above => by
    have hchildren := flatMap_tags_read children (e :: above)
    rw [read, Node.tags, places, List.map_cons, List.map_cons, ← hchildren, allTags_eq_flatMap,
      flatMap_readAll fun _ => rfl]
    rfl
  | .text _, _ => rfl
  | .comment _, _ => rfl
  | .instruction .., _ => rfl

/-- As `tags_read`, for several of them. -/
theorem flatMap_tags_read : ∀ (ms : List Markup) (above : List Element),
    (ms.flatMap fun m => (m.read (scopeWithin above)).tags).map some =
      (allPlaces above ms).map fun p => tagWithin? p.lineage
  | [], _ => rfl
  | m :: ms, above => by
    rw [List.flatMap_cons, List.map_append, tags_read m above, flatMap_tags_read ms above,
      allPlaces, List.map_append]

end

theorem tags_read_of_isAside {m : Markup} (h : m.isAside = true) : (m.read []).tags = [] := by
  cases m with
  | comment value => rfl
  | instruction target value => rfl
  | _ => simp [isAside] at h

/-- The start tags that are read of a document are those of the elements in its outermost one. -/
theorem Document.allTags_read {doc : Document} (h : doc.Legible) :
    (allTags doc.read).map some = (doc.root.places []).map fun p => tagWithin? p.lineage := by
  have hasides : ∀ ms : List Markup, (∀ m ∈ ms, m.isAside = true ∧ m.Legible) →
      (ms.map (Markup.read [])).flatMap Node.tags = [] := by
    intro ms hms
    rw [List.flatMap_map]
    exact List.flatMap_eq_nil_iff.mpr fun m hm => tags_read_of_isAside (hms m hm).1
  rw [allTags_eq_flatMap, Document.read, List.flatMap_append, List.flatMap_cons,
    hasides _ h.prologue, hasides _ h.epilogue, List.nil_append, List.append_nil]
  exact tags_read doc.root []

end Markup
end GraphFolding
