/-
Names that are kept as they were written.

A name is kept under the first prefix that is bound to its namespace.  This is the prefix that it
was written with if no other binding of the namespace stands before that one:

* `Xml.Scope.Leads` — the binding of a name comes first of those of its namespace;
* `Xml.Tag.NamesLead` — so it is for every name in a start tag;
* `Drawing.KeepsTag` — an element has the names that its start tag was written with, its attributes
  are found under them, and it is given its cluster if it is a link;
* `Drawing.keepsTags_iff` — the elements of a drawing that was read do if and only if the names lead
  in every start tag;
* `Drawing.not_forall_keepsTags` — a link is not given its cluster where another prefix leads.
-/
import GraphFolding.Proofs.AttributeNames
import GraphFolding.Proofs.TableOrder
import GraphFolding.Proofs.WiringEffect
namespace GraphFolding

open Xml

namespace Xml

/-- No other binding of the namespace that a name stands for comes before that of the name. -/
def Scope.Leads (scope : Scope) (name : Option String) : Prop :=
  ∀ b ∈ scope.find? (·.name = name), ∀ x ∈ scope.takeWhile (· ≠ b), x.uri ≠ b.uri

instance (scope : Scope) (name : Option String) : Decidable (scope.Leads name) :=
  inferInstanceAs (Decidable (∀ b ∈ scope.find? (·.name = name),
    ∀ x ∈ scope.takeWhile (· ≠ b), x.uri ≠ b.uri))

/-- A start tag in which the prefixes of all names lead; the prefix `xml` needs no binding. -/
structure Tag.NamesLead (tag : Tag) : Prop where
  element : tag.scope.Leads tag.written.qualifier?
  attributes : ∀ a ∈ tag.attributes, ∀ p ∈ a.written.qualifier?, p ≠ "xml" →
    tag.scope.Leads (some p)

instance (tag : Tag) : Decidable tag.NamesLead :=
  decidable_of_iff (tag.scope.Leads tag.written.qualifier? ∧ ∀ a ∈ tag.attributes,
    ∀ p ∈ a.written.qualifier?, p ≠ "xml" → tag.scope.Leads (some p))
    ⟨fun h => ⟨h.1, h.2⟩, fun h => ⟨h.element, h.attributes⟩⟩

namespace Scope

theorem find?_uri_eq_iff {scope : Scope} {b : Binding} (hb : b ∈ scope) :
    scope.find? (·.uri = b.uri) = some b ↔ ∀ x ∈ scope.takeWhile (· ≠ b), x.uri ≠ b.uri := by
  rw [List.find?_eq_some_iff_append]
  constructor
  · rintro ⟨-, before, after, rfl, hbefore⟩
    have hne : ∀ x ∈ before, x.uri ≠ b.uri := by simpa using hbefore
    have hapart : ∀ x ∈ before, decide (x ≠ b) = true := fun x hx =>
      decide_eq_true fun h => hne x hx (congrArg Binding.uri h)
    rw [List.takeWhile_append_of_pos hapart, List.takeWhile_cons_of_neg (by simp), List.append_nil]
    exact hne
  · intro h
    refine ⟨decide_eq_true rfl, scope.takeWhile (· ≠ b), (scope.dropWhile (· ≠ b)).tail, ?_, ?_⟩
    · have hne : scope.dropWhile (· ≠ b) ≠ [] := by
        intro hnil
        have hall := List.dropWhile_eq_nil_iff.mp hnil b hb
        simp at hall
      have hhead : (scope.dropWhile (· ≠ b)).head hne = b := by
        simpa using List.head_dropWhile_not (· ≠ b) hne
      have hsplit := List.takeWhile_append_dropWhile (p := (· ≠ b)) (l := scope)
      rw [← List.cons_head_tail hne, hhead] at hsplit
      exact hsplit.symm
    · simpa using h

/-- Two prefixes that are not empty, or the lack of one. -/
theorem eq_of_getD_eq {x y : Option String} (hx : x ≠ some "") (hy : y ≠ some "")
    (h : x.getD "" = y.getD "") : x = y := by
  cases x with
  | none =>
    cases y with
    | none => rfl
    | some q => exact absurd (congrArg some h.symm) hy
  | some p =>
    cases y with
    | none => exact absurd (congrArg some h) hx
    | some q => exact congrArg some h

/-- Of two bindings of one namespace, the prefix tells which one it is. -/
theorem Coherent.getD_name_eq_iff {scope : Scope} (hs : scope.Coherent) {x y : Binding}
    (hx : x ∈ scope) (hy : y ∈ scope) (huri : x.uri = y.uri) :
    x.name.getD "" = y.name.getD "" ↔ x = y := by
  have hnonempty : ∀ b ∈ scope, b.name ≠ some "" := fun b hb hname =>
    absurd ((hs.sound b hb).isNamePart "" hname) (by decide)
  refine ⟨fun h => ?_, fun h => congrArg (fun b : Binding => b.name.getD "") h⟩
  have hnames := eq_of_getD_eq (hnonempty x hx) (hnonempty y hy) h
  cases x
  exact congrArg₂ Binding.mk hnames huri

/-- A namespace is kept under the prefix of a binding if and only if no other one comes before. -/
theorem Coherent.storedPrefix_uri_eq_iff {scope : Scope} (hs : scope.Coherent) {b : Binding}
    (hb : b ∈ scope) : scope.storedPrefix (some b.uri) = b.name.getD "" ↔
      ∀ x ∈ scope.takeWhile (· ≠ b), x.uri ≠ b.uri := by
  obtain ⟨x, hx⟩ : ∃ x, scope.find? (·.uri = b.uri) = some x := by
    rw [← Option.isSome_iff_exists, List.find?_isSome]
    exact ⟨b, hb, by simp⟩
  have hxmem : x ∈ scope := List.mem_of_find?_eq_some hx
  have hxuri : x.uri = b.uri := of_decide_eq_true (List.find?_eq_some_iff_append.mp hx).1
  have hprefix : scope.storedPrefix (some b.uri) = x.name.getD "" := by
    rw [storedPrefix, if_neg (hs.sound b hb).uri_ne_xml, prefixFor?, hx, Option.bind_some]
  rw [← find?_uri_eq_iff hb, hprefix, hs.getD_name_eq_iff hxmem hb hxuri, hx, Option.some_inj]

/-- A name that leads is the one that its namespace is kept under. -/
theorem Coherent.storedPrefix_eq_iff {scope : Scope} (hs : scope.Coherent) {name : Option String}
    (hbound : ∀ p ∈ name, scope.binds (some p) = true) :
    scope.storedPrefix (scope.uri? name) = name.getD "" ↔ scope.Leads name := by
  rw [Leads, uri?]
  rcases hfind : scope.find? (·.name = name) with _ | b
  · -- A prefix is bound, so it is the default namespace that there is none of.
    obtain rfl : name = none := by
      refine Option.eq_none_iff_forall_not_mem.mpr fun p hp => ?_
      obtain ⟨x, hx, hxname⟩ := List.any_eq_true.mp (hbound p hp)
      have hnone := List.find?_eq_none.mp hfind x hx
      rw [← (hp : name = some p)] at hxname
      exact hnone hxname
    rw [hfind]
    exact iff_of_true rfl (by simp)
  · -- The binding of the name is there, and it leads if it is the first one of its namespace.
    have hb : b ∈ scope := List.mem_of_find?_eq_some hfind
    have hname : b.name = name := of_decide_eq_true (List.find?_eq_some_iff_append.mp hfind).1
    rw [hfind, Option.map_some, ← hname, hs.storedPrefix_uri_eq_iff hb]
    exact ⟨fun h b' hb' => Option.some_inj.mp hb' ▸ h, fun h => h b rfl⟩

/-- A name is kept as it was written if and only if its prefix leads. -/
theorem Coherent.storedName_eq_iff {scope : Scope} (hs : scope.Coherent) {q : QName}
    (hq : q.IsValid) (hbound : ∀ p ∈ q.qualifier?, scope.binds (some p) = true) :
    storedName scope (scope.uri? q.qualifier?) q.localPart = q.text ↔
      scope.Leads q.qualifier? := by
  have hqualifier : q.qualifier?.getD "" = q.qualifier := by
    unfold QName.qualifier?
    split
    · rename_i hempty
      exact (String.isEmpty_iff.mp hempty).symm
    · rfl
  rw [← hs.storedPrefix_eq_iff hbound, hqualifier]
  constructor
  · intro h
    have hparts := hs.ofText_storedName (scope.uri? q.qualifier?) hq.2
    rw [h, QName.ofText_text hq] at hparts
    exact (congrArg QName.qualifier hparts).symm
  · intro h
    rw [storedName_eq_text, storedQName, h]

end Scope

/-- The same for an attribute; one without a prefix is kept without one. -/
theorem Attribute.Sound.storedName_eq_iff {scope : Scope} (hs : scope.Coherent) {a : Attribute}
    (ha : a.Sound scope) : storedName scope a.uri a.written.localPart = a.written.text ↔
      ∀ p ∈ a.written.qualifier?, p ≠ "xml" → scope.Leads (some p) := by
  rw [ha.uri_eq, Scope.attributeUri]
  rcases hq : a.written.qualifier? with _ | p
  · simp [storedName, QName.qualifier?_eq_none hq]
  · simp only [Option.mem_some_iff, forall_eq']
    by_cases hxml : p = "xml"
    · obtain ⟨-, -, htext⟩ := QName.qualifier?_eq_some hq
      simp [hxml, storedName, htext]
    · have hbound : ∀ p' ∈ a.written.qualifier?, scope.binds (some p') = true := by
        intro p' hp'
        obtain rfl : p = p' := Option.some_inj.mp (hq.symm.trans hp')
        exact (ha.bound p hq).resolve_left hxml
      have hiff := hs.storedName_eq_iff ha.written hbound
      rw [hq] at hiff
      rw [if_neg hxml, hiff]
      exact (imp_iff_right hxml).symm

end Xml

/-! ### Elements -/

/-- A value is found under the name of its entry, if no name is there twice. -/
theorem lookup_eq_some_of_mem {l : List (String × String)} (hl : (l.map (·.1)).Nodup)
    {entry : String × String} (h : entry ∈ l) : l.lookup entry.1 = some entry.2 := by
  induction l with
  | nil => simp at h
  | cons a l ih =>
    rw [List.map_cons, List.nodup_cons] at hl
    rw [lookup_cons_eq_ite]
    rcases List.mem_cons.mp h with rfl | h
    · rw [if_pos rfl]
    · have hne : entry.1 ≠ a.1 := fun heq => hl.1 (List.mem_map.mpr ⟨entry, h, heq⟩)
      rw [if_neg hne, ih hl.2 h]

namespace Drawing

variable {d : Drawing}

/-- An element that has the names of a start tag: its own, those of its attributes in their order,
and those under which the values are found; as a link it has the cluster that it refers to. -/
structure KeepsTag (d : Drawing) (id : NodeId) (tag : Tag) : Prop where
  name : d.name? id = some tag.written.text
  keys : (d.element? id).map (·.attributes.map (·.1)) =
    some (tag.attributes.map (·.written.text))
  lookup : ∀ a ∈ tag.attributes, d.attribute? id a.written.text = some a.value
  stamp : id ∈ d.anchors → ∀ a ∈ tag.attributes, a.written.text = "xlink:href" →
    (d.wire {}).1.attribute? id "cluster" = some a.value

/-- The names that attributes were written with are different. -/
theorem nodup_written {inherited : Scope} {tag : Tag} (htag : tag.Sound inherited) :
    (tag.attributes.map (·.written.text)).Nodup := by
  refine List.pairwise_map.mpr (htag.attributes_apart.imp_of_mem fun {a b} ha hb hne heq => ?_)
  have hwritten : a.written = b.written := by
    rw [← QName.ofText_text (htag.attributes a ha).written, heq,
      QName.ofText_text (htag.attributes b hb).written]
  have huri : a.uri = b.uri := by
    rw [(htag.attributes a ha).uri_eq, (htag.attributes b hb).uri_eq, hwritten]
  simp [Builder.sameName, huri, hwritten] at hne

/-- Values are found under the names that their attributes were written with, if these are kept. -/
theorem attribute?_of_keys {around inherited : Scope} {id : NodeId} {tag : Tag}
    (htag : tag.Sound around) (helement : d.element? id = some (.ofTag inherited tag))
    (hkeys : (Element.ofTag inherited tag).attributes.map (·.1) =
      tag.attributes.map (·.written.text)) {a : Attribute} (ha : a ∈ tag.attributes) :
    d.attribute? id a.written.text = some a.value := by
  rw [Element.attributes_ofTag, List.map_map, List.map_inj_left] at hkeys
  have hmem : (a.written.text, a.value) ∈ (Element.ofTag inherited tag).attributes := by
    rw [Element.attributes_ofTag, ← hkeys a ha]
    exact List.mem_map_of_mem ha
  have hnodup : ((Element.ofTag inherited tag).attributes.map (·.1)).Nodup := by
    rw [Element.attributes_ofTag, List.map_map, List.map_inj_left.mpr hkeys]
    exact nodup_written htag
  rw [attribute?, helement, Option.bind_some, Element.attribute?]
  exact lookup_eq_some_of_mem hnodup hmem

/-- The element of a start tag has its names if and only if they lead. -/
theorem keepsTag_iff {around inherited : Scope} {id : NodeId} {tag : Tag} (htag : tag.Sound around)
    (helement : d.element? id = some (.ofTag inherited tag)) :
    d.KeepsTag id tag ↔ tag.NamesLead := by
  have hname : d.name? id = some tag.written.text ↔ tag.scope.Leads tag.written.qualifier? := by
    rw [← htag.coherent.storedName_eq_iff htag.written htag.bound, ← htag.uri_eq, name?, helement,
      Option.map_some, Option.some_inj]
    rfl
  have hkeys : (Element.ofTag inherited tag).attributes.map (·.1) =
      tag.attributes.map (·.written.text) ↔
      ∀ a ∈ tag.attributes, ∀ p ∈ a.written.qualifier?, p ≠ "xml" → tag.scope.Leads (some p) := by
    rw [Element.attributes_ofTag, List.map_map, List.map_inj_left]
    exact forall₂_congr fun a ha => (htag.attributes a ha).storedName_eq_iff htag.coherent
  have hentry : (d.element? id).map (·.attributes.map (·.1)) =
      some (tag.attributes.map (·.written.text)) ↔
      (Element.ofTag inherited tag).attributes.map (·.1) = tag.attributes.map (·.written.text) := by
    rw [helement, Option.map_some, Option.some_inj]
  refine ⟨fun h => ⟨hname.mp h.name, hkeys.mp (hentry.mp h.keys)⟩, fun h => ?_⟩
  have hkept := hkeys.mpr h.attributes
  refine ⟨hname.mpr h.element, hentry.mpr hkept,
    fun a ha => attribute?_of_keys htag helement hkept ha, fun hlink a ha hhref => ?_⟩
  -- The value is found under the first name that references are looked for under.
  have hvalue := attribute?_of_keys htag helement hkept ha
  rw [hhref] at hvalue
  have hreference : d.reference? {} id = some a.value := by
    rw [reference?, List.findSome?_cons, hvalue]
  rw [attribute?_wire d {} id (by decide), if_pos ⟨hlink, rfl⟩, hreference, Option.some_or]

theorem forall₂_iff_forall_mem {α β : Type} {R S : α → β → Prop} {P : β → Prop} {as : List α}
    {bs : List β} (h : List.Forall₂ R as bs) (hP : ∀ a, ∀ b ∈ bs, R a b → (S a b ↔ P b)) :
    List.Forall₂ S as bs ↔ ∀ b ∈ bs, P b := by
  induction h with
  | nil => simp
  | cons hab _ ih =>
    obtain ⟨hfirst, hmore⟩ := forall_and.mp fun a => List.forall_mem_cons.mp (hP a)
    rw [List.forall₂_cons, List.forall_mem_cons, hfirst _ hab, ih hmore]

/-- Every element of a drawing that was read has the names that it was written with if and only if
the prefixes of all names lead. -/
theorem keepsTags_iff {text : String} {nodes : List Xml.Node}
    (hread : readDocument text = .ok nodes) (hd : ofDocument nodes = .ok d) :
    List.Forall₂ d.KeepsTag d.elementIds (allTags nodes) ↔
      ∀ tag ∈ allTags nodes, tag.NamesLead := by
  refine forall₂_iff_forall_mem (hasTags_ofDocument hd) fun id tag hmem hentered => ?_
  obtain ⟨around, htag⟩ := exists_sound_of_mem_allTags hread tag hmem
  obtain ⟨inherited, helement⟩ := hentered
  exact keepsTag_iff htag helement

/-- The start tags of a text that holds a drawing, and the drawing. -/
def tagsOf (text : String) : Option (List Tag × Drawing) :=
  (readDocument text).toOption.bind fun nodes =>
    (ofDocument nodes).toOption.map fun d => (allTags nodes, d)

theorem exists_of_tagsOf {text : String} {p : List Tag × Drawing → Bool}
    (h : (tagsOf text).any p = true) : ∃ nodes d, readDocument text = .ok nodes ∧
      ofDocument nodes = .ok d ∧ p (allTags nodes, d) = true := by
  obtain ⟨tags, htags, hp⟩ := (Option.any_eq_true ..).mp h
  obtain ⟨nodes, hread, htags⟩ := Option.bind_eq_some_iff.mp htags
  obtain ⟨d, hd, rfl⟩ := Option.map_eq_some_iff.mp htags
  exact ⟨nodes, d, eq_ok_of_toOption hread, eq_ok_of_toOption hd, hp⟩

/-- A link below an element that declares two prefixes for the namespace of links. -/
def linkedText (first second : String) : String :=
  "<svg xmlns:" ++ first ++ "=\"http://www.w3.org/1999/xlink\" xmlns:" ++ second ++
    "=\"http://www.w3.org/1999/xlink\"><g><g><a xlink:href=\"m\" target=\"t\"/></g></g></svg>"

theorem keepsTags_linked : ∃ nodes d, readDocument (linkedText "xlink" "x") = .ok nodes ∧
    ofDocument nodes = .ok d ∧ (∀ tag ∈ allTags nodes, tag.NamesLead) ∧
    List.Forall₂ d.KeepsTag d.elementIds (allTags nodes) := by
  have hlead : (tagsOf (linkedText "xlink" "x")).any
      (fun x => decide (∀ tag ∈ x.1, tag.NamesLead)) = true := by decide +kernel
  obtain ⟨nodes, d, hread, hd, hlead⟩ := exists_of_tagsOf hlead
  exact ⟨nodes, d, hread, hd, of_decide_eq_true hlead,
    (keepsTags_iff hread hd).mpr (of_decide_eq_true hlead)⟩

/-- Not every drawing has the names that it was written with: where another prefix leads, a link is
not found by its reference, and is not given its cluster. -/
theorem not_forall_keepsTags : ¬∀ text nodes d, readDocument text = .ok nodes →
    ofDocument nodes = .ok d → List.Forall₂ d.KeepsTag d.elementIds (allTags nodes) := by
  intro h
  have hunwired : (tagsOf (linkedText "x" "xlink")).any (fun x =>
      (x.2.elementIds.zip x.1).any fun entry => x.2.anchors.contains entry.1 &&
        entry.2.attributes.any fun a => a.written.text = "xlink:href" &&
          (x.2.wire {}).1.attribute? entry.1 "cluster" ≠ some a.value) = true := by
    decide +kernel
  obtain ⟨nodes, d, hread, hd, hunwired⟩ := exists_of_tagsOf hunwired
  obtain ⟨⟨id, tag⟩, hmem, hentry⟩ := List.any_eq_true.mp hunwired
  simp only [Bool.and_eq_true, List.any_eq_true, List.contains_eq_mem, decide_eq_true_eq] at hentry
  obtain ⟨hlink, a, ha, hhref, hcluster⟩ := hentry
  have hkept : d.KeepsTag id tag := (List.forall₂_iff_zip.mp (h _ nodes d hread hd)).2 hmem
  exact hcluster (hkept.stamp hlink a ha hhref)

end Drawing
end GraphFolding
