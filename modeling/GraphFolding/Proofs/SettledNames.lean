/-
Attributes whose names are read as they are written.

A name is read back under the first prefix that is bound to its namespace, which need not be the
one it was written with, and what is called what declarations are called is not read back at
all.  Where neither happens to the attributes with certain names:

* `Markup.Settled` — the attributes under these names are read under them again, and no others;
* `Markup.places_reread` — elements that are read again stand in the same elements, with the same
  local names and the same values under these names, and with the same text if there is no
  carriage return in it;
* `Drawing.Alike`, `Drawing.forall₂_alike` — so the elements of a drawing that is read of a
  written one are the same, one after the other.
-/
import GraphFolding.Proofs.Rereading
namespace GraphFolding

open Xml

/-- What is looked at in a tag: its local name, and the values of attributes with certain names. -/
def Element.face (keys : List String) (e : Element) : String × List (Option String) :=
  (e.localName, keys.map e.attribute?)

/-- The name under which an attribute is read again, unless it is taken for a declaration. -/
def Element.rereadName? (inherited : Scope) (e : Element) (name : String) : Option String :=
  let scope := e.readScope inherited
  let written := QName.ofText name
  if written.declares then none
  else some (storedName scope (scope.attributeUri written) written.localPart)

/-- An element whose attributes are read again under certain names if and only if they have them. -/
def Element.Settled (keys : List String) (inherited : Scope) (e : Element) : Prop :=
  ∀ a ∈ e.attributes, IsQName a.1 ∧
    ∀ key ∈ keys, e.rereadName? inherited a.1 = some key ↔ a.1 = key

instance (keys : List String) (inherited : Scope) (e : Element) :
    Decidable (e.Settled keys inherited) :=
  inferInstanceAs (Decidable (∀ a ∈ e.attributes, _))

theorem Element.attributes_reread_eq (inherited inherited' : Scope) (e : Element) :
    (Element.ofTag inherited' (e.readTag inherited)).attributes =
      e.attributes.filterMap fun a => (e.rereadName? inherited a.1).map (·, a.2) := by
  rw [attributes_ofTag, readTag, List.map_map, plainAttributes, ← List.filterMap_eq_map,
    List.filterMap_filter]
  refine List.filterMap_congr fun a _ => ?_
  rw [rereadName?]
  cases (QName.ofText a.1).declares <;> rfl

/-- A value is found again under a name, if the names that become that name are that name. -/
theorem lookup_filterMap_rename {rename : String → Option String} {key : String}
    {l : List (String × String)} (h : ∀ a ∈ l, rename a.1 = some key ↔ a.1 = key) :
    (l.filterMap fun a => (rename a.1).map (·, a.2)).lookup key = l.lookup key := by
  induction l with
  | nil => rfl
  | cons a l ih =>
    obtain ⟨hname, hmore⟩ := List.forall_mem_cons.mp h
    rw [lookup_cons_eq_ite, List.filterMap_cons, ← ih hmore]
    cases hrename : rename a.1 with
    | none => rw [Option.map_none, if_neg fun heq => by simp [hname.mpr heq.symm] at hrename]
    | some name =>
      rw [hrename, Option.some_inj] at hname
      rw [Option.map_some, lookup_cons_eq_ite]
      simp only [eq_comm (a := key), hname]

/-- Under names that are settled there are the values there were. -/
theorem Element.Settled.face_eq {keys : List String} {inherited : Scope} {e : Element}
    (h : e.Settled keys inherited) (he : e.Legible) (inherited' : Scope) :
    (Element.ofTag inherited' (e.readTag inherited)).face keys = e.face keys := by
  refine Prod.ext (Markup.localName_reread he inherited' inherited) ?_
  refine List.map_congr_left fun key hkey => ?_
  rw [attribute?, attributes_reread_eq, attribute?]
  exact lookup_filterMap_rename fun a ha => (h a ha).2 key hkey

namespace Markup

mutual

/-- Markup whose attributes are read again under certain names if and only if they have them, in
a scope inherited from around it. -/
def Settled (keys : List String) (inherited : Scope) : Markup → Prop
  | element e children =>
    e.Settled keys inherited ∧ AllSettled keys (e.readScope inherited) children
  | _ => True

/-- As `Settled`, for several of them. -/
def AllSettled (keys : List String) (inherited : Scope) : List Markup → Prop
  | [] => True
  | m :: ms => m.Settled keys inherited ∧ AllSettled keys inherited ms

end

mutual

instance decidableSettled (keys : List String) (inherited : Scope) :
    (m : Markup) → Decidable (m.Settled keys inherited)
  | element e children =>
    have := decidableAllSettled keys (e.readScope inherited) children
    inferInstanceAs (Decidable (_ ∧ _))
  | text _ => isTrue trivial
  | comment _ => isTrue trivial
  | instruction .. => isTrue trivial

instance decidableAllSettled (keys : List String) (inherited : Scope) :
    (ms : List Markup) → Decidable (AllSettled keys inherited ms)
  | [] => isTrue trivial
  | m :: ms =>
    have := decidableSettled keys inherited m
    have := decidableAllSettled keys inherited ms
    inferInstanceAs (Decidable (_ ∧ _))

end

/-- Places in the same elements, as far as they are looked at, and with the same text, unless
there is a carriage return in it. -/
structure Place.Alike (keys : List String) (p p' : Place) : Prop where
  lineage : p'.lineage.map (Element.face keys) = p.lineage.map (Element.face keys)
  text : '\r' ∉ p.text.toList → p'.text = p.text

mutual

/-- Elements that are read again stand in the same elements. -/
theorem places_reread {keys : List String} : ∀ (m : Markup) {inherited : Scope}
    {above above' : List Element}, m.Legible → m.Settled keys inherited →
    above'.map (Element.face keys) = above.map (Element.face keys) →
    List.Forall₂ (Place.Alike keys) (m.places above)
      ((ofNode inherited (m.read inherited)).places above')
  | element e children, inherited, above, above', h, hsettled, habove => by
    have hlineage : (Element.ofTag inherited (e.readTag inherited) :: above').map
        (Element.face keys) = (e :: above).map (Element.face keys) := by
      rw [List.map_cons, List.map_cons, hsettled.1.face_eq h.1, habove]
    rw [read, ofNode, places, places]
    refine .cons ⟨hlineage, fun hreturn => ?_⟩ ?_
    · -- The text is that of its runs, none of which holds a carriage return.
      have hjoin := join_allRuns children ""
      rw [String.empty_append] at hjoin
      have hruns : (allRuns "" children).map readText = allRuns "" children := by
        refine (List.map_congr_left fun run hrun => ?_).trans (List.map_id _)
        refine readText_of_no_return fun hmem => hreturn ?_
        rw [← hjoin, String.toList_join]
        exact List.mem_flatMap.mpr ⟨run, hrun, hmem⟩
      rw [← hruns] at hjoin
      exact (allText_reread _ _ children "").trans hjoin
    · rw [allPlaces_eq_flatMap (Element.ofTag inherited (e.readTag inherited) :: above'),
        ofNodes_eq_map, List.flatMap_map, flatMap_readAll fun _ => rfl]
      exact allPlaces_reread children h.2 hsettled.2 hlineage
  | text _, _, _, _, _, _, _ => .nil
  | comment _, _, _, _, _, _, _ => .nil
  | instruction .., _, _, _, _, _, _ => .nil

/-- As `places_reread`, for several of them. -/
theorem allPlaces_reread {keys : List String} : ∀ (ms : List Markup) {inherited : Scope}
    {above above' : List Element}, AllLegible ms → AllSettled keys inherited ms →
    above'.map (Element.face keys) = above.map (Element.face keys) →
    List.Forall₂ (Place.Alike keys) (allPlaces above ms)
      (ms.flatMap fun m => (ofNode inherited (m.read inherited)).places above')
  | [], _, _, _, _, _, _ => .nil
  | m :: ms, inherited, above, above', h, hsettled, habove => by
    rw [allPlaces, List.flatMap_cons]
    exact List.rel_append (places_reread m h.1 hsettled.1 habove)
      (allPlaces_reread ms h.2 hsettled.2 habove)

end

end Markup

/-! ### Whole drawings -/

namespace Drawing

variable {d d' : Drawing} {keys : List String}

/-- Elements of two drawings that stand in the same elements, as far as they are looked at, and
hold the same text, unless there is a carriage return in it. -/
structure Alike (keys : List String) (d d' : Drawing) (id id' : NodeId) : Prop where
  lineage : ∀ n, ((d'.ancestor? id' n).bind d'.element?).map (Element.face keys) =
    ((d.ancestor? id n).bind d.element?).map (Element.face keys)
  text : '\r' ∉ (d.textOf id).toList → d'.textOf id' = d.textOf id

theorem IsAt.alike {id id' : NodeId} {p p' : Markup.Place} (h : d.IsAt id p)
    (hp : p.Alike keys p') (h' : d'.IsAt id' p') : Alike keys d d' id id' where
  lineage n := by
    rw [h.lineage, h'.lineage, ← List.getElem?_map, ← List.getElem?_map, hp.lineage]
  text := by
    rw [h.text, h'.text]
    exact hp.text

theorem exists_alike {ids ids' : List NodeId} {ps ps' : List Markup.Place}
    (h : List.Forall₂ d.IsAt ids ps) (hp : List.Forall₂ (Markup.Place.Alike keys) ps ps')
    (h' : List.Forall₂ d'.IsAt ids' ps') : List.Forall₂ (Alike keys d d') ids ids' := by
  induction hp generalizing ids ids' with
  | nil =>
    cases h
    cases h'
    exact .nil
  | cons hp _ ih =>
    cases h with
    | cons h hmore =>
      cases h' with
      | cons h' hmore' => exact .cons (h.alike hp h') (ih hmore hmore')

/-- The elements of a drawing that is read of a written one are the same, one after the other, if
its attributes keep the names that are looked for. -/
theorem forall₂_alike {doc : Markup.Document} (hd : d.WellLinked)
    (h : d.Holds doc) (hdoc : doc.Legible) (hsettled : doc.root.Settled keys [])
    (hread : ofString d.text = .ok d') : List.Forall₂ (Alike keys d d')
      ((d.descendants d.root).filter d.isElement)
      ((d'.descendants d'.root).filter d'.isElement) := by
  obtain ⟨-, h'⟩ := holds_reread h hdoc hread
  exact exists_alike (h.places hd) (Markup.places_reread doc.root hdoc.root hsettled rfl)
    (h'.places (wellLinked_ofString hread))

end Drawing
end GraphFolding
