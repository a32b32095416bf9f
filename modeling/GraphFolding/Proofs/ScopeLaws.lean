/-
Namespaces in force, and names under them.

* `Xml.Scope.extend_eq_append` — own bindings come first, and inherited ones follow;
* `Xml.Scope.Sound` — a scope in which no two bindings stand for the same namespace;
* `storedName_attribute`, `storedName_element` — a name resolved in such a scope is stored as
  it was written;
* `Element.ofTag_tag` — an element read back from its own start tag is the element itself.
-/
import GraphFolding.Proofs.Markup
import Mathlib.Data.List.Nodup
namespace GraphFolding

open Xml (QName Scope Binding IsQName IsNamePart)

namespace Xml.Scope

theorem foldl_extend (inherited : Scope) : ∀ own : Scope, ∃ more : Scope,
    inherited.foldl (fun scope b => if scope.binds b.name then scope else scope ++ [b]) own =
      own ++ more ∧ ∀ b ∈ more, b ∈ inherited := by
  induction inherited with
  | nil => exact fun own => ⟨[], by simp⟩
  | cons b inherited ih =>
    intro own
    rw [List.foldl_cons]
    by_cases h : own.binds b.name
    · rw [if_pos h]
      obtain ⟨more, heq, hmore⟩ := ih own
      exact ⟨more, heq, fun x hx => List.mem_cons_of_mem b (hmore x hx)⟩
    · rw [if_neg h]
      obtain ⟨more, heq, hmore⟩ := ih (own ++ [b])
      refine ⟨b :: more, by simp [heq], fun x hx => ?_⟩
      rcases List.mem_cons.mp hx with rfl | hx
      · exact List.mem_cons_self
      · exact List.mem_cons_of_mem b (hmore x hx)

/-- Own bindings come first, and then inherited ones. -/
theorem extend_eq_append (own inherited : Scope) : ∃ more : Scope,
    extend own inherited = own ++ more ∧ ∀ b ∈ more, b ∈ inherited := by
  unfold extend
  by_cases h : own.isEmpty
  · rw [if_pos h, List.isEmpty_iff.mp h]
    exact ⟨inherited, rfl, fun _ hb => hb⟩
  · rw [if_neg h]
    exact foldl_extend inherited own

/-- A scope of well-formed bindings, of which no two stand for the same namespace. -/
structure Sound (scope : Scope) : Prop where
  wellFormed : ∀ b ∈ scope, b.WellFormed
  uris_nodup : (scope.map (·.uri)).Nodup

namespace Sound

variable {scope : Scope} (hs : scope.Sound)
include hs

theorem eq_of_uri_eq {a b : Binding} (ha : a ∈ scope) (hb : b ∈ scope) (h : a.uri = b.uri) :
    a = b :=
  List.inj_on_of_nodup_map hs.uris_nodup ha hb h

/-- The prefix of a namespace is the one it was found under. -/
theorem prefixFor?_eq {name : Option String} {uri : String} (h : scope.uri? name = some uri) :
    scope.prefixFor? uri = name ∧ uri ≠ xmlUri := by
  obtain ⟨b, hfind, rfl⟩ := Option.map_eq_some_iff.mp h
  have hname : b.name = name := of_decide_eq_true (List.find?_eq_some_iff_append.mp hfind).1
  have hb : b ∈ scope := List.mem_of_find?_eq_some hfind
  refine ⟨?_, (hs.wellFormed b hb).uri_ne_xml⟩
  rcases hfirst : scope.find? (·.uri = b.uri) with _ | a
  · exact absurd (List.find?_eq_none.mp hfirst b hb) (by simp)
  · -- The first binding of the namespace is the one looked for, since there is no other.
    have ha := List.mem_of_find?_eq_some hfirst
    have huri : a.uri = b.uri := of_decide_eq_true (List.find?_eq_some_iff_append.mp hfirst).1
    rw [prefixFor?, hfirst, Option.bind_some, hs.eq_of_uri_eq ha hb huri, hname]

end Sound

theorem isSome_uri? (scope : Scope) (name : Option String) :
    (scope.uri? name).isSome = scope.binds name := by
  rw [uri?, Option.isSome_map, List.isSome_find?, binds]

theorem exists_uri?_of_binds {scope : Scope} {name : Option String} (h : scope.binds name = true) :
    ∃ uri, scope.uri? name = some uri := by
  rw [← isSome_uri?] at h
  exact Option.isSome_iff_exists.mp h

end Xml.Scope

/-! ### Names -/

namespace Xml.QName

theorem qualifier?_eq_none {q : QName} (h : q.qualifier? = none) : q.text = q.localPart := by
  unfold qualifier? at h
  unfold text
  split at h
  · rename_i hempty
    rw [if_pos hempty]
  · simp at h

theorem qualifier?_eq_some {q : QName} {p : String} (h : q.qualifier? = some p) :
    q.qualifier = p ∧ p.isEmpty = false ∧ q.text = p ++ ":" ++ q.localPart := by
  unfold qualifier? at h
  unfold text
  split at h
  · simp at h
  · rename_i hempty
    obtain rfl := Option.some_inj.mp h
    exact ⟨rfl, by simpa using hempty, if_neg hempty⟩

theorem forall_mem_ne_colon {cs : List Char} (hcs : ∀ c ∈ cs, isNamePartChar c = true) :
    ∀ c ∈ cs, decide (c ≠ ':') = true := by
  intro c hc
  have hchar := hcs c hc
  rw [isNamePartChar, Bool.and_eq_true] at hchar
  exact hchar.2

/-- What follows the last colon of a name is its local part. -/
theorem localNameOf_text {q : QName} (hlocal : IsNamePart q.localPart) :
    Element.localNameOf q.text = q.localPart := by
  have hcolon : ∀ c ∈ q.localPart.toList.reverse, decide (c ≠ ':') = true := by
    intro c hc
    exact forall_mem_ne_colon hlocal.2 c (List.mem_reverse.mp hc)
  -- Read from the end, the local part comes first, and no colon stands in it.
  have htake : q.text.toList.reverse.takeWhile (· ≠ ':') = q.localPart.toList.reverse := by
    by_cases hempty : q.qualifier = ""
    · have htext : q.text = q.localPart := by
        rw [QName.text, if_pos (by simp [hempty])]
      rw [htext, ← List.append_nil q.localPart.toList.reverse,
        List.takeWhile_append_of_pos hcolon, List.takeWhile_nil]
    · rw [QName.text_of_qualifier hempty, List.reverse_append, List.reverse_cons,
        List.append_assoc, List.takeWhile_append_of_pos hcolon]
      simp
  rw [Element.localNameOf, htake, List.reverse_reverse, String.ofList_toList]

end Xml.QName

theorem Xml.IsQName.localNameOf_eq {name : String} (h : IsQName name) :
    Element.localNameOf name = (QName.ofText name).localPart := by
  rw [← QName.localNameOf_text h.1.2, h.2]

section Stored

variable {scope : Scope} (hs : scope.Sound)
include hs

/-- A prefix that is bound is found again from what it is bound to. -/
theorem storedName_of_prefix {p uri localPart : String} (hp : p.isEmpty = false)
    (h : scope.uri? (some p) = some uri) :
    storedName scope (some uri) localPart = p ++ ":" ++ localPart := by
  obtain ⟨hfound, hne⟩ := hs.prefixFor?_eq h
  rw [storedName, if_neg hne, hfound]
  simp [hp]

theorem storedName_attribute {name : String} (hname : IsQName name)
    (hbound : Element.IsBound scope name) :
    storedName scope (scope.attributeUri (QName.ofText name)) (QName.ofText name).localPart =
      name := by
  refine Eq.trans ?_ hname.2
  rw [Scope.attributeUri]
  rcases hq : (QName.ofText name).qualifier? with _ | p
  · exact (QName.qualifier?_eq_none hq).symm
  · obtain ⟨-, hempty, htext⟩ := QName.qualifier?_eq_some hq
    rw [htext]
    simp only []
    by_cases hxml : p = "xml"
    · rw [if_pos hxml, hxml]
      simp [storedName]
    · rw [if_neg hxml]
      obtain ⟨uri, huri⟩ := Scope.exists_uri?_of_binds ((hbound p hq).resolve_left hxml)
      rw [huri, storedName_of_prefix hs hempty huri]

theorem storedName_element {name : String} (hname : IsQName name)
    (hbound : Element.IsBound scope name) (hxml : (QName.ofText name).qualifier ≠ "xml") :
    storedName scope (scope.uri? (QName.ofText name).qualifier?)
      (QName.ofText name).localPart = name := by
  refine Eq.trans ?_ hname.2
  rcases hq : (QName.ofText name).qualifier? with _ | p
  · rw [QName.qualifier?_eq_none hq]
    rcases huri : scope.uri? none with _ | uri
    · rfl
    · -- The default namespace was found without a prefix, and is stored without one.
      obtain ⟨hfound, hne⟩ := hs.prefixFor?_eq huri
      rw [storedName, if_neg hne, hfound]
  · obtain ⟨hqualifier, hempty, htext⟩ := QName.qualifier?_eq_some hq
    have hbinds := (hbound p hq).resolve_left fun h => hxml (hqualifier.trans h)
    obtain ⟨uri, huri⟩ := Scope.exists_uri?_of_binds hbinds
    rw [htext, huri, storedName_of_prefix hs hempty huri]

end Stored

/-! ### Elements -/

namespace Element

variable {e : Element} {inherited : Scope}

theorem WellFormed.scope_sound (he : e.WellFormed inherited)
    (hs : ∀ b ∈ inherited, b.WellFormed) : (e.scope inherited).Sound where
  wellFormed b hb := by
    obtain ⟨more, heq, hmore⟩ := Scope.extend_eq_append e.declarations inherited
    rw [scope, heq] at hb
    rcases List.mem_append.mp hb with hb | hb
    · exact (he.declarations b hb).1
    · exact hs b (hmore b hb)
  uris_nodup := he.uris_nodup

theorem WellFormed.filter_scope (he : e.WellFormed inherited) :
    (e.scope inherited).filter (fun b => b.name ≠ some "xml" && !inherited.contains b) =
      e.declarations := by
  obtain ⟨more, heq, hmore⟩ := Scope.extend_eq_append e.declarations inherited
  have hown : e.declarations.filter (fun b => b.name ≠ some "xml" && !inherited.contains b) =
      e.declarations := by
    refine List.filter_eq_self.mpr fun b hb => ?_
    obtain ⟨hwf, hnew⟩ := he.declarations b hb
    simp [hwf.ne_xml, hnew]
  have hinherited : more.filter (fun b => b.name ≠ some "xml" && !inherited.contains b) = [] := by
    refine List.filter_eq_nil_iff.mpr fun b hb => ?_
    simp [hmore b hb]
  rw [scope, heq, List.filter_append, hown, hinherited, List.append_nil]

/-- An element read back from its own start tag is the element itself. -/
theorem ofTag_tag (he : e.WellFormed inherited) (hplain : e.Plain)
    (hs : ∀ b ∈ inherited, b.WellFormed) : ofTag inherited (e.tag inherited) = e := by
  have hsound := he.scope_sound hs
  have hattributes : (e.tag inherited).attributes.map
      (fun a => (storedName (e.tag inherited).scope a.uri a.written.localPart, a.value)) =
        e.attributes := by
    rw [tag, List.map_map]
    refine (List.map_congr_left fun a ha => ?_).trans (List.map_id _)
    obtain ⟨hname, hbound, -⟩ := he.attributes a ha
    exact Prod.ext (storedName_attribute hsound hname hbound) rfl
  rw [ofTag, hattributes]
  have hname : storedName (e.tag inherited).scope (e.tag inherited).uri
      (e.tag inherited).written.localPart = e.name :=
    storedName_element hsound he.name.1 he.name.2 hplain.name
  rw [hname]
  exact congrArg (Element.mk e.name · e.attributes) he.filter_scope

end Element
end GraphFolding
