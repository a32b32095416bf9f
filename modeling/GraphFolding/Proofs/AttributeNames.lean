/-
The namespaces of attributes, when a drawing that was read is written and read again.

An attribute is written under the first prefix bound to its namespace.  Bindings in force
already are not declared again, and still every prefix stands for the same namespace in what is
read back (`Element.agree_readScope`).  What can go wrong is the choice of the prefix: the first
binding of a namespace may be the default one, and then the attribute is written without a
prefix, or that of the prefix `xmlns`, and then it is taken for a declaration.

* `Xml.Node.attributeNames` — the namespaces and local names of all attributes;
* `Xml.Node.Rewritable` — no attribute goes wrong, and what is written is accepted;
* `Element.rewritable_iff`, `Markup.rewritable_iff` — one tag, and a whole node;
* `Drawing.attributeNames_eq_iff` — the names of a whole document stay the same.
-/
import GraphFolding.Proofs.ReadingDocuments
import GraphFolding.Proofs.StoredNames
namespace GraphFolding

open Xml

namespace Xml

/-- The namespace and the local name of an attribute. -/
def Attribute.expandedName (a : Attribute) : Option String × String := (a.uri, a.written.localPart)

mutual

/-- The local names of a node and of the elements in it, in document order, each with the expanded
names of the attributes. -/
def Node.attributeNames : Node → List (String × List (Option String × String))
  | .element tag children =>
    (tag.written.localPart, tag.attributes.map Attribute.expandedName) :: attributeNames children
  | _ => []

/-- As `Node.attributeNames`, for several nodes. -/
def attributeNames : List Node → List (String × List (Option String × String))
  | [] => []
  | x :: xs => x.attributeNames ++ attributeNames xs

end

theorem attributeNames_eq_flatMap (xs : List Node) :
    attributeNames xs = xs.flatMap Node.attributeNames := by
  induction xs with
  | nil => rfl
  | cons x xs ih => rw [attributeNames, ih, List.flatMap_cons]

mutual

theorem hasNamed_eq_any (localName : String) : ∀ x : Node,
    x.hasNamed localName = x.attributeNames.any (·.1 = localName)
  | .element tag children => by
    rw [Node.hasNamed, anyNamed_eq_any_names, Node.attributeNames, List.any_cons]
  | .text _ => rfl
  | .comment _ => rfl
  | .instruction .. => rfl

/-- As `hasNamed_eq_any`, for several nodes. -/
theorem anyNamed_eq_any_names (localName : String) : ∀ xs : List Node,
    anyNamed localName xs = (attributeNames xs).any (·.1 = localName)
  | [] => rfl
  | x :: xs => by
    rw [anyNamed, hasNamed_eq_any, anyNamed_eq_any_names, attributeNames, List.any_append]

end

/-- An attribute whose namespace, if it has one, is found again by the first of its prefixes. -/
def Attribute.Rewritable (scope : Scope) (a : Attribute) : Prop :=
  ∀ uri ∈ a.uri, uri ≠ Scope.xmlUri → ∃ p, scope.prefixFor? uri = some p ∧ p ≠ "xmlns"

/-- A tag that can be written, with attributes that keep their names. -/
structure Tag.Rewritable (tag : Tag) : Prop where
  values : ∀ a ∈ tag.attributes, IsAllowedText a.value
  uris : ∀ b ∈ tag.scope, IsAllowedText b.uri
  name : ∀ uri ∈ tag.uri, tag.scope.prefixFor? uri ≠ some "xmlns"
  attributes : ∀ a ∈ tag.attributes, a.Rewritable tag.scope

mutual

/-- A node that can be written, with attributes that keep their names.  An instruction for `xml`
that has a value would be taken for a declaration. -/
def Node.Rewritable : Node → Prop
  | .element tag children => tag.Rewritable ∧ AllRewritable children
  | .instruction target value => target = "xml" → value = none
  | _ => True

/-- As `Node.Rewritable`, for several nodes. -/
def AllRewritable : List Node → Prop
  | [] => True
  | x :: xs => x.Rewritable ∧ AllRewritable xs

end

/-! ### Scopes that agree -/

namespace Scope

/-- Every prefix stands for the same namespace. -/
def Agree (scope scope' : Scope) : Prop := ∀ p : String, scope.uri? (some p) = scope'.uri? (some p)

theorem Coherent.filter {scope : Scope} (hs : scope.Coherent) (p : Binding → Bool) :
    Coherent (scope.filter p) where
  sound b hb := hs.sound b (List.mem_of_mem_filter hb)
  prefixes_nodup := hs.prefixes_nodup.sublist (List.filter_sublist.filterMap _)

theorem exists_mem_of_uri? {scope : Scope} {name : Option String} {uri : String}
    (h : scope.uri? name = some uri) : ∃ b ∈ scope, b.name = name ∧ b.uri = uri := by
  obtain ⟨b, hfind, huri⟩ := Option.map_eq_some_iff.mp h
  exact ⟨b, List.mem_of_find?_eq_some hfind,
    of_decide_eq_true (List.find?_eq_some_iff_append.mp hfind).1, huri⟩

theorem uri?_eq_none_iff {scope : Scope} {name : Option String} :
    scope.uri? name = none ↔ ∀ b ∈ scope, b.name ≠ name := by
  rw [uri?, Option.map_eq_none_iff, List.find?_eq_none]
  simp

end Scope

/-- What is bound around a tag is bound in it. -/
theorem Tag.Sound.uri?_eq_none {inherited : Scope} {tag : Tag} (htag : tag.Sound inherited)
    {name : Option String} (h : tag.scope.uri? name = none) : inherited.uri? name = none := by
  refine Scope.uri?_eq_none_iff.mpr fun b hb hname => ?_
  have hbinds := htag.covers b hb
  rw [hname, ← Scope.isSome_uri?, h] at hbinds
  exact Bool.false_ne_true hbinds

end Xml

/-! ### One tag -/

namespace Element

variable {inherited inherited' : Scope} {tag : Tag} (htag : tag.Sound inherited)
include htag

theorem coherent_declarations_ofTag : Scope.Coherent (ofTag inherited tag).declarations :=
  htag.coherent.filter _

theorem uri?_declarations_eq_none_iff {name : Option String} :
    Scope.uri? (ofTag inherited tag).declarations name = none ↔
      ∀ b ∈ tag.scope, b.name = name → b ∈ inherited := by
  rw [Scope.uri?_eq_none_iff]
  constructor
  · intro h b hb hname
    refine Decidable.byContradiction fun hnew => ?_
    exact h b ((mem_declarations_ofTag htag).mpr ⟨hb, hnew⟩) hname
  · intro h b hb hname
    obtain ⟨hscope, hnew⟩ := (mem_declarations_ofTag htag).mp hb
    exact hnew (h b hscope hname)

/-- Of the bindings in force only the new ones are declared, and with the inherited ones every prefix
stands for the same namespace. -/
theorem or_uri?_declarations_ofTag (hs : inherited.Coherent) (p : String) :
    (Scope.uri? (ofTag inherited tag).declarations (some p)).or (inherited.uri? (some p)) =
      tag.scope.uri? (some p) := by
  cases huri : tag.scope.uri? (some p) with
  | none =>
    have hown : Scope.uri? (ofTag inherited tag).declarations (some p) = none :=
      (uri?_declarations_eq_none_iff htag).mpr fun b hb hname =>
        absurd hname (Scope.uri?_eq_none_iff.mp huri b hb)
    rw [hown, htag.uri?_eq_none huri]
    rfl
  | some uri =>
    obtain ⟨b, hb, hname, rfl⟩ := Scope.exists_mem_of_uri? huri
    by_cases hold : b ∈ inherited
    · -- The binding was inherited, and no other one of its prefix is declared.
      have hown : Scope.uri? (ofTag inherited tag).declarations (some p) = none :=
        (uri?_declarations_eq_none_iff htag).mpr fun x hx hxname =>
          htag.coherent.eq_of_name_eq hb hx hname hxname ▸ hold
      rw [hown, hs.uri?_eq hold hname]
      rfl
    · have hmem := (mem_declarations_ofTag htag).mpr ⟨hb, hold⟩
      rw [(coherent_declarations_ofTag htag).uri?_eq hmem hname]
      rfl

/-- When an element has been written and read again, every prefix stands for the same namespace. -/
theorem agree_readScope (hs : inherited.Coherent) (hagree : inherited.Agree inherited')
    (hdeclared : (ofTag inherited tag).declared = (ofTag inherited tag).declarations) :
    tag.scope.Agree ((ofTag inherited tag).readScope inherited') := by
  intro p
  rw [readScope, hdeclared, Scope.uri?_extend, ← hagree p, or_uri?_declarations_ofTag htag hs p]

end Element

/-- An attribute with a name that was stored has its name again, and is no declaration, if and
only if its namespace is found again. -/
theorem Xml.Attribute.Sound.rewritable_iff {scope scope' : Scope} (hs : scope.Coherent)
    (hagree : scope.Agree scope') {a : Attribute} (ha : a.Sound scope) :
    (scope.storedQName a.uri a.written.localPart).declares = false ∧
      scope'.attributeUri (scope.storedQName a.uri a.written.localPart) = a.uri ↔
        a.Rewritable scope := by
  have hlocal : a.written.localPart ≠ "xmlns" := by
    intro h
    have hplain := ha.not_declares
    simp [QName.declares, h] at hplain
  have hdeclares : (scope.storedQName a.uri a.written.localPart).declares = false ↔
      scope.storedPrefix a.uri ≠ "xmlns" := by
    rw [QName.declares, Bool.or_eq_false_iff, decide_eq_false_iff_not, decide_eq_false_iff_not]
    exact and_iff_left hlocal
  rw [hdeclares, Attribute.Rewritable]
  cases huri : a.uri with
  | none => simp [Scope.storedQName, Scope.storedPrefix, Scope.attributeUri, QName.qualifier?]
  | some uri =>
    by_cases hxml : uri = Scope.xmlUri
    · simp [Scope.storedQName, Scope.storedPrefix, Scope.attributeUri, QName.qualifier?, hxml]
    · cases hp : scope.prefixFor? uri with
      | none =>
        simp [Scope.storedQName, Scope.storedPrefix, Scope.attributeUri, QName.qualifier?, hxml, hp]
      | some p =>
        have hmem := Scope.mem_of_prefixFor? hp
        have hfound : scope'.uri? (some p) = some uri :=
          (hagree p).symm.trans (hs.uri?_eq hmem rfl)
        have hpxml : p ≠ "xml" := fun h => (hs.sound _ hmem).ne_xml (congrArg some h)
        have hempty : p ≠ "" := by
          rintro rfl
          exact absurd ((hs.sound _ hmem).isNamePart "" rfl) (by decide)
        simp [Scope.storedQName, Scope.storedPrefix, Scope.attributeUri, QName.qualifier?, hxml, hp,
          hpxml, hempty, hfound]

/-- A prefix that was stored is bound. -/
theorem Xml.Scope.Coherent.binds_of_storedPrefix {scope scope' : Scope} (hs : scope.Coherent)
    (hagree : scope.Agree scope') (uri : Option String) (localPart : String) :
    ∀ p ∈ (scope.storedQName uri localPart).qualifier?,
      (p = "xml" ∧ uri = some Scope.xmlUri) ∨ scope'.binds (some p) = true := by
  intro p hp
  obtain ⟨rfl, -, -⟩ := QName.qualifier?_eq_some hp
  rw [QName.qualifier?] at hp
  cases uri with
  | none => simp [Scope.storedQName, Scope.storedPrefix] at hp
  | some uri =>
    by_cases hxml : uri = Scope.xmlUri
    · exact .inl ⟨by simp [Scope.storedQName, Scope.storedPrefix, hxml], by rw [hxml]⟩
    · right
      cases hfound : scope.prefixFor? uri with
      | none => simp [Scope.storedQName, Scope.storedPrefix, hxml, hfound] at hp
      | some q =>
        have hq : (scope.storedQName (some uri) localPart).qualifier = q := by
          simp [Scope.storedQName, Scope.storedPrefix, hxml, hfound]
        rw [hq, ← Scope.isSome_uri?, ← hagree q, hs.uri?_eq (Scope.mem_of_prefixFor? hfound) rfl]
        rfl

theorem Xml.pairwise_sameName_iff {as : List Attribute} :
    as.Pairwise (fun a b => Builder.sameName a b = false) ↔
      (as.map Attribute.expandedName).Nodup := by
  rw [List.Nodup, List.pairwise_map]
  simp [Builder.sameName, Attribute.expandedName]

theorem Xml.forall_mem_of_allAcceptable {pairs : List (QName × String)} : ∀ {declared : Scope},
    AllAcceptable declared pairs → ∀ pair ∈ pairs, IsAllowedText pair.2 := by
  induction pairs with
  | nil => simp
  | cons pair pairs ih =>
    intro declared h
    exact List.forall_mem_cons.mpr ⟨h.1.1, ih h.2⟩

namespace Element

variable {inherited inherited' : Scope} {tag : Tag} (htag : tag.Sound inherited)

include htag

theorem ofText_stored {a : Attribute} (ha : a ∈ tag.attributes) :
    QName.ofText (storedName tag.scope a.uri a.written.localPart) =
      tag.scope.storedQName a.uri a.written.localPart :=
  htag.coherent.ofText_storedName _ (htag.attributes a ha).written.2

theorem ofText_name_ofTag : QName.ofText (ofTag inherited tag).name =
    tag.scope.storedQName tag.uri tag.written.localPart :=
  htag.coherent.ofText_storedName tag.uri htag.written.2

theorem localPart_readTag : ((ofTag inherited tag).readTag inherited').written.localPart =
    tag.written.localPart := by
  show (QName.ofText (ofTag inherited tag).name).localPart = tag.written.localPart
  rw [ofText_name_ofTag htag]
  rfl

theorem not_declares_iff : (∀ a ∈ (ofTag inherited tag).attributes,
      (QName.ofText a.1).declares = false) ↔
    ∀ a ∈ tag.attributes, (tag.scope.storedQName a.uri a.written.localPart).declares = false := by
  rw [attributes_ofTag, List.forall_mem_map]
  refine forall₂_congr fun a ha => ?_
  rw [ofText_stored htag ha]

theorem not_declares_of_rewritable (h : ∀ a ∈ tag.attributes, a.Rewritable tag.scope) :
    ∀ a ∈ (ofTag inherited tag).attributes, (QName.ofText a.1).declares = false := by
  refine (not_declares_iff htag).mpr fun a ha => ?_
  have hself : tag.scope.Agree tag.scope := fun _ => rfl
  exact (((htag.attributes a ha).rewritable_iff htag.coherent hself).mpr (h a ha)).1

theorem uri_ne_xml : tag.uri ≠ some Scope.xmlUri := by
  intro h
  obtain ⟨b, hb, huri⟩ := htag.uri _ h
  exact (htag.coherent.sound b hb).uri_ne_xml huri

theorem storedPrefix_eq_xmlns_iff {uri : String} (huri : tag.uri = some uri) :
    tag.scope.storedPrefix tag.uri = "xmlns" ↔ tag.scope.prefixFor? uri = some "xmlns" := by
  have hne : uri ≠ Scope.xmlUri := fun h => uri_ne_xml htag (h ▸ huri)
  rw [huri, Scope.storedPrefix, if_neg hne]
  cases tag.scope.prefixFor? uri <;> simp

section Agreeing

variable (hs : inherited.Coherent) (hagree : inherited.Agree inherited')
include hs hagree

/-- Without attributes called what declarations are called, prefixes stand for what they did. -/
theorem agree_of_not_declares (hplain : ∀ a ∈ (ofTag inherited tag).attributes,
    (QName.ofText a.1).declares = false) :
    tag.scope.Agree ((ofTag inherited tag).readScope inherited') := by
  refine agree_readScope htag hs hagree (declared_eq (fun b hb => ?_) hplain)
  exact ((coherent_declarations_ofTag htag).sound b hb).uri_ne_xml

theorem attributeNames_readTag (hplain : ∀ a ∈ (ofTag inherited tag).attributes,
    (QName.ofText a.1).declares = false) :
    ((ofTag inherited tag).readTag inherited').attributes.map Attribute.expandedName =
      tag.attributes.map Attribute.expandedName ↔ ∀ a ∈ tag.attributes, a.Rewritable tag.scope := by
  have hagree' := agree_of_not_declares htag hs hagree hplain
  rw [readTag, plainAttributes_eq hplain, attributes_ofTag, List.map_map, List.map_map,
    List.map_inj_left]
  rw [not_declares_iff htag] at hplain
  refine forall₂_congr fun a ha => ?_
  rw [← (htag.attributes a ha).rewritable_iff htag.coherent hagree', and_iff_right (hplain a ha)]
  simp [Attribute.expandedName, Scope.attribute, ofText_stored htag ha, Scope.storedQName]

/-- The attributes keep their names if and only if all their namespaces are found again. -/
theorem attributes_rewritable_iff :
    ((ofTag inherited tag).readTag inherited').attributes.map Attribute.expandedName =
      tag.attributes.map Attribute.expandedName ↔ ∀ a ∈ tag.attributes, a.Rewritable tag.scope := by
  constructor
  · intro h
    -- No attribute is lost, so none was taken for a declaration.
    have hlength : (ofTag inherited tag).plainAttributes.length =
        (ofTag inherited tag).attributes.length := by
      have hmap := congrArg List.length h
      simpa [readTag, attributes_ofTag] using hmap
    have hplain : ∀ a ∈ (ofTag inherited tag).attributes, (QName.ofText a.1).declares = false := by
      intro a ha
      simpa using List.length_filter_eq_length_iff.mp hlength a ha
    exact (attributeNames_readTag htag hs hagree hplain).mp h
  · intro h
    have hplain := not_declares_of_rewritable htag h
    exact (attributeNames_readTag htag hs hagree hplain).mpr h

/-- A tag that can be rewritten is accepted again. -/
theorem readable_of_rewritable (h : tag.Rewritable) :
    (ofTag inherited tag).Readable inherited' := by
  have hname := ofText_name_ofTag htag
  have hnames := (attributes_rewritable_iff htag hs hagree).mpr h.attributes
  have hplain := not_declares_of_rewritable htag h.attributes
  have hagree' := agree_of_not_declares htag hs hagree hplain
  have hbinds := fun uri localPart =>
    htag.coherent.binds_of_storedPrefix hagree' uri localPart
  refine ⟨⟨?_, ?_, ?_⟩, ?_, ?_⟩
  · intro a ha p hp
    rw [plainAttributes_eq hplain, attributes_ofTag] at ha
    obtain ⟨x, hx, rfl⟩ := List.mem_map.mp ha
    simp only [ofText_stored htag hx] at hp
    exact (hbinds _ _ p hp).imp And.left id
  · have hapart := pairwise_sameName_iff.mp htag.attributes_apart
    rw [← hnames] at hapart
    exact pairwise_sameName_iff.mpr hapart
  · intro p hp
    rw [hname] at hp
    exact (hbinds _ _ p hp).resolve_left fun h => uri_ne_xml htag h.2
  · rw [hname]
    intro hxmlns
    cases huri : tag.uri with
    | none => simp [Scope.storedQName, Scope.storedPrefix, huri] at hxmlns
    | some uri => exact h.name uri huri ((storedPrefix_eq_xmlns_iff htag huri).mp hxmlns)
  · have hdeclarations := coherent_declarations_ofTag htag
    refine allAcceptable_pairs (fun b hb => ?_) hdeclarations.prefixes_nodup fun a ha => ?_
    · have hb' := hdeclarations.sound b hb
      exact ⟨h.uris b ((mem_declarations_ofTag htag).mp hb).1, hb'.ne_xml, hb'.uri_ne_xml,
        hb'.uri_ne_xmlns⟩
    · obtain ⟨x, hx, rfl⟩ := List.mem_map.mp ha
      exact ⟨hplain _ ha, h.values x hx⟩

/-- A tag is accepted again, and its attributes keep their names, if and only if it can be
rewritten. -/
theorem rewritable_iff (huris : ∀ b ∈ inherited, IsAllowedText b.uri) :
    (ofTag inherited tag).Readable inherited' ∧
      ((ofTag inherited tag).readTag inherited').attributes.map Attribute.expandedName =
        tag.attributes.map Attribute.expandedName ↔ tag.Rewritable := by
  constructor
  · rintro ⟨hreadable, hnames⟩
    have hvalues := forall_mem_of_allAcceptable hreadable.values
    rw [pairs, List.forall_mem_append, List.forall_mem_map, List.forall_mem_map] at hvalues
    refine ⟨fun a ha => ?_, fun b hb => ?_, fun uri huri hp => ?_, ?_⟩
    · exact hvalues.2 _ (List.mem_map_of_mem ha)
    · by_cases hold : b ∈ inherited
      · exact huris b hold
      · exact hvalues.1 b ((mem_declarations_ofTag htag).mpr ⟨hb, hold⟩)
    · refine hreadable.not_xmlns ?_
      rw [ofText_name_ofTag htag]
      exact (storedPrefix_eq_xmlns_iff htag huri).mpr hp
    · exact (attributes_rewritable_iff htag hs hagree).mp hnames
  · intro h
    exact ⟨readable_of_rewritable htag hs hagree h,
      (attributes_rewritable_iff htag hs hagree).mpr h.attributes⟩

end Agreeing

end Element

/-! ### Whole nodes -/

namespace Markup

theorem attributeNames_readAll (inherited : Scope) (pending : String) (ms : List Markup) :
    attributeNames (readAll inherited pending ms) =
      ms.flatMap fun m => (m.read inherited).attributeNames := by
  rw [attributeNames_eq_flatMap, flatMap_readAll fun _ => rfl]

mutual

/-- A node has as many elements as what is read of it once it has been stored. -/
theorem length_attributeNames_read : ∀ (x : Xml.Node) (inherited inherited' : Scope),
    ((ofNode inherited x).read inherited').attributeNames.length = x.attributeNames.length
  | .element tag children, inherited, inherited' => by
    have hchildren := length_attributeNames_readAll children tag.scope
      ((Element.ofTag inherited tag).readScope inherited')
    rw [ofNode, read, Xml.Node.attributeNames, Xml.Node.attributeNames, attributeNames_readAll,
      List.length_cons, List.length_cons, hchildren]
  | .text _, _, _ => rfl
  | .comment _, _, _ => rfl
  | .instruction .., _, _ => rfl

/-- As `length_attributeNames_read`, for several nodes. -/
theorem length_attributeNames_readAll : ∀ (xs : List Xml.Node) (inherited inherited' : Scope),
    ((ofNodes inherited xs).flatMap fun m => (m.read inherited').attributeNames).length =
      (attributeNames xs).length
  | [], _, _ => rfl
  | x :: xs, inherited, inherited' => by
    rw [ofNodes, List.flatMap_cons, List.length_append, length_attributeNames_read,
      length_attributeNames_readAll, attributeNames, List.length_append]

end

mutual

/-- A node is accepted again, and its attributes keep their names, if and only if it can be
rewritten. -/
theorem rewritable_iff : ∀ (x : Xml.Node) {inherited inherited' : Scope}, x.Sound inherited →
    inherited.Coherent → inherited.Agree inherited' → (∀ b ∈ inherited, IsAllowedText b.uri) →
    ((ofNode inherited x).Readable inherited' ∧
      ((ofNode inherited x).read inherited').attributeNames = x.attributeNames ↔ x.Rewritable)
  | .element tag children, inherited, inherited', h, hs, hagree, huris => by
    obtain ⟨htag, hall⟩ := h
    have htagiff := Element.rewritable_iff htag hs hagree huris
    -- The children are looked at under bindings that agree again.
    have hchildren : tag.Rewritable → (AllReadable
        ((Element.ofTag inherited tag).readScope inherited') (ofNodes tag.scope children) ∧
        ((ofNodes tag.scope children).flatMap fun m =>
          (m.read ((Element.ofTag inherited tag).readScope inherited')).attributeNames) =
        attributeNames children ↔ AllRewritable children) := by
      intro hrewritable
      have hagree' := Element.agree_of_not_declares htag hs hagree
        (Element.not_declares_of_rewritable htag hrewritable.attributes)
      exact allRewritable_iff children hall htag.coherent hagree' hrewritable.uris
    rw [ofNode, read, Readable, Xml.Node.attributeNames, Xml.Node.attributeNames,
      attributeNames_readAll, Element.localPart_readTag htag, List.cons_eq_cons, Prod.mk.injEq,
      and_iff_right rfl, Xml.Node.Rewritable]
    constructor
    · rintro ⟨⟨hreadable, hallreadable⟩, hnames, hallnames⟩
      have hrewritable := htagiff.mp ⟨hreadable, hnames⟩
      exact ⟨hrewritable, (hchildren hrewritable).mp ⟨hallreadable, hallnames⟩⟩
    · rintro ⟨hrewritable, hallrewritable⟩
      obtain ⟨hreadable, hnames⟩ := htagiff.mpr hrewritable
      obtain ⟨hallreadable, hallnames⟩ := (hchildren hrewritable).mpr hallrewritable
      exact ⟨⟨hreadable, hallreadable⟩, hnames, hallnames⟩
  | .text _, _, _, h, _, _, _ => iff_of_true ⟨h, rfl⟩ trivial
  | .comment _, _, _, _, _, _, _ => iff_of_true ⟨trivial, rfl⟩ trivial
  | .instruction .., _, _, _, _, _, _ => and_iff_left rfl

/-- As `rewritable_iff`, for several nodes. -/
theorem allRewritable_iff : ∀ (xs : List Xml.Node) {inherited inherited' : Scope},
    AllSound inherited xs → inherited.Coherent → inherited.Agree inherited' →
    (∀ b ∈ inherited, IsAllowedText b.uri) →
    (AllReadable inherited' (ofNodes inherited xs) ∧
      ((ofNodes inherited xs).flatMap fun m => (m.read inherited').attributeNames) =
        attributeNames xs ↔ AllRewritable xs)
  | [], _, _, _, _, _, _ => iff_of_true ⟨trivial, rfl⟩ trivial
  | x :: xs, inherited, inherited', h, hs, hagree, huris => by
    have hx := rewritable_iff x h.1 hs hagree huris
    have hxs := allRewritable_iff xs h.2 hs hagree huris
    have happend := append_inj_iff (length_attributeNames_read x inherited inherited')
      ((ofNodes inherited xs).flatMap fun m => (m.read inherited').attributeNames)
      (attributeNames xs)
    rw [ofNodes, AllReadable, List.flatMap_cons, attributeNames, AllRewritable, ← hx, ← hxs, happend]
    exact and_and_and_comm

end

end Markup

/-! ### Whole documents -/

namespace Xml

theorem attributeNames_of_not_isElement {x : Node} (h : x.isElement = false) :
    x.attributeNames = [] := by
  cases x with
  | element tag children => simp [Node.isElement] at h
  | _ => rfl

theorem attributeNames_ne_nil {x : Node} (h : x.isElement = true) : x.attributeNames ≠ [] := by
  cases x with
  | element tag children => simp [Node.attributeNames]
  | _ => simp [Node.isElement] at h

theorem attributeNames_filter (xs : List Node) :
    attributeNames (xs.filter (·.isElement)) = attributeNames xs := by
  induction xs with
  | nil => rfl
  | cons x xs ih =>
    cases hx : x.isElement with
    | true => rw [List.filter_cons_of_pos hx, attributeNames, attributeNames, ih]
    | false =>
      rw [List.filter_cons_of_neg (by simp [hx]), ih, attributeNames,
        attributeNames_of_not_isElement hx, List.nil_append]

end Xml

namespace Markup.Document

/-- Comments and instructions have no attributes. -/
theorem attributeNames_read {doc : Document} (hdoc : doc.Legible) :
    attributeNames doc.read = (doc.root.read []).attributeNames := by
  have hasides : ∀ ms : List Markup, (∀ m ∈ ms, m.isAside = true ∧ m.Legible) →
      (ms.map (Markup.read [])).flatMap Xml.Node.attributeNames = [] := by
    intro ms hms
    refine List.flatMap_eq_nil_iff.mpr fun x hx => ?_
    obtain ⟨m, hm, rfl⟩ := List.mem_map.mp hx
    have haside := (hms m hm).1
    cases m with
    | element e children => simp [isAside] at haside
    | _ => rfl
  rw [attributeNames_eq_flatMap, Document.read, List.flatMap_append, List.flatMap_cons,
    hasides _ hdoc.prologue, hasides _ hdoc.epilogue, List.nil_append, List.append_nil]

end Markup.Document

namespace Markup.Sketch

variable {xs : List Xml.Node} (hxs : ∀ x ∈ xs, x.Sound []) {root : Markup}
  (hroot : (ofNodes xs).root = some root)
include hroot

theorem exists_root : ∃ ys x, xs.filter (·.isElement) = ys ++ [x] ∧ root = ofNode [] x := by
  rw [root_ofNodes] at hroot
  obtain ⟨ms, hms⟩ := List.getLast?_eq_some_iff.mp hroot
  obtain ⟨ys, zs, hsplit, rfl, hzs⟩ := List.map_eq_append_iff.mp hms
  obtain ⟨x, rfl, rfl⟩ := List.map_eq_singleton_iff.mp hzs
  exact ⟨ys, x, hsplit, rfl⟩

omit hroot in
theorem readable_asides_iff (xs : List Xml.Node) : (∀ m ∈ (ofNodes xs).before, m.Readable []) ∧
    (∀ m ∈ (ofNodes xs).after, m.Readable []) ↔ ∀ x ∈ xs, isAside x = true → x.Rewritable := by
  have hone : ∀ x, isAside x = true → ((ofNode [] x).Readable [] ↔ x.Rewritable) := by
    intro x hx
    cases x with
    | element tag children => simp [isAside] at hx
    | text value => simp [isAside] at hx
    | comment value => exact Iff.rfl
    | instruction target value => exact Iff.rfl
  constructor
  · rintro ⟨hbefore, hafter⟩ x hx haside
    rw [← hone x haside]
    exact ((mem_ofNodes xs).mpr ⟨x, hx, haside, rfl⟩).elim (hbefore _) (hafter _)
  · intro h
    have hall : ∀ m, m ∈ (ofNodes xs).before ∨ m ∈ (ofNodes xs).after → m.Readable [] := by
      intro m hm
      obtain ⟨x, hx, haside, rfl⟩ := (mem_ofNodes xs).mp hm
      exact (hone x haside).mpr (h x hx haside)
    exact ⟨fun m hm => hall m (.inl hm), fun m hm => hall m (.inr hm)⟩

include hxs

/-- A document is accepted again, and its attributes keep their names, if and only if it has one
element and all of it can be rewritten. -/
theorem rewritable_iff : Document.Readable ⟨(ofNodes xs).before, root, (ofNodes xs).after⟩ ∧
      attributeNames (Document.read ⟨(ofNodes xs).before, root, (ofNodes xs).after⟩) =
        attributeNames xs ↔
    (∃ x, xs.filter (·.isElement) = [x]) ∧ ∀ x ∈ xs, x.Rewritable := by
  obtain ⟨ys, x, hfilter, rfl⟩ := exists_root hroot
  have hmem : x ∈ xs.filter (·.isElement) := hfilter ▸ List.mem_append_right ys List.mem_cons_self
  have hx := (List.mem_filter.mp hmem).1
  have hnode := Markup.rewritable_iff x (hxs x hx) Scope.coherent_nil (fun _ => rfl)
    (by simp : ∀ b ∈ ([] : Scope), IsAllowedText b.uri)
  have hasides := readable_asides_iff xs
  have hnames : attributeNames xs = attributeNames ys ++ x.attributeNames := by
    rw [← attributeNames_filter, hfilter, attributeNames_eq_flatMap, List.flatMap_append,
      ← attributeNames_eq_flatMap, List.flatMap_singleton]
  rw [Document.attributeNames_read (legible hxs hroot), hnames]
  constructor
  · rintro ⟨⟨hbefore, hreadable, hafter⟩, heq⟩
    -- The names of the last element are no fewer than those of all of them.
    obtain rfl : ys = [] := by
      have hlength := congrArg List.length heq
      rw [List.length_append, length_attributeNames_read] at hlength
      have hnil : attributeNames ys = [] := List.eq_nil_of_length_eq_zero (by omega)
      rw [attributeNames_eq_flatMap, List.flatMap_eq_nil_iff] at hnil
      refine List.eq_nil_iff_forall_not_mem.mpr fun y hy => ?_
      have hfiltered : y ∈ xs.filter (·.isElement) := hfilter ▸ List.mem_append_left [x] hy
      exact attributeNames_ne_nil (List.mem_filter.mp hfiltered).2 (hnil y hy)
    refine ⟨⟨x, hfilter⟩, fun y hy => ?_⟩
    cases helement : y.isElement with
    | true =>
      have hfiltered : y ∈ xs.filter (·.isElement) := List.mem_filter.mpr ⟨hy, helement⟩
      rw [hfilter] at hfiltered
      rw [List.mem_singleton.mp hfiltered]
      exact hnode.mp ⟨hreadable, heq⟩
    | false =>
      cases haside : isAside y with
      | true => exact hasides.mp ⟨hbefore, hafter⟩ y hy haside
      | false =>
        cases y with
        | text value => trivial
        | _ => simp [Xml.Node.isElement, isAside] at helement haside
  · rintro ⟨⟨z, hz⟩, hall⟩
    obtain rfl : ys = [] := by
      have hlength := congrArg List.length (hfilter.symm.trans hz)
      rw [List.length_append, List.length_singleton] at hlength
      exact List.eq_nil_of_length_eq_zero (by simpa using hlength)
    obtain ⟨hreadable, heq⟩ := hnode.mpr (hall x hx)
    obtain ⟨hbefore, hafter⟩ := hasides.mpr fun y hy _ => hall y hy
    exact ⟨⟨hbefore, hreadable, hafter⟩, heq⟩

end Markup.Sketch

namespace Drawing

/-- A drawing that was read is accepted again once it has been written, with the same elements and
the same expanded names of their attributes, if and only if the document has one outermost
element and all of it can be rewritten. -/
theorem attributeNames_eq_iff {text : String} {nodes : List Xml.Node} {d : Drawing}
    (hread : readDocument text = .ok nodes) (hd : ofDocument nodes = .ok d) :
    (∃ nodes' d', readDocument d.text = .ok nodes' ∧ ofDocument nodes' = .ok d' ∧
      attributeNames nodes' = attributeNames nodes) ↔
    (∃ x, nodes.filter (·.isElement) = [x]) ∧ ∀ x ∈ nodes, x.Rewritable := by
  have hsound := readDocument_ensures text nodes hread
  obtain ⟨hsvg, root, hroot, hholds⟩ := exists_holds_of_ofDocument hd
  have hyields := readDocument_yields (Markup.Sketch.legible hsound hroot) hholds.toList_text
  rw [← Markup.Sketch.rewritable_iff hsound hroot]
  constructor
  · rintro ⟨nodes', d', hread', -, hnames⟩
    obtain ⟨hreadable, rfl⟩ := hyields.eq_ok_iff.mp hread'
    exact ⟨hreadable, hnames⟩
  · rintro ⟨hreadable, hnames⟩
    rw [anyNamed_eq_any_names, ← hnames, ← anyNamed_eq_any_names] at hsvg
    obtain ⟨-, d', -, hd', -⟩ := holds_ofDocument hsvg
    exact ⟨_, d', hyields.eq hreadable, hd', hnames⟩

/-- The elements and the expanded names of their attributes in a text that holds a drawing. -/
def namesOf (text : String) : Option (List (String × List (Option String × String))) :=
  (readDocument text).toOption.bind fun nodes =>
    (ofDocument nodes).toOption.map fun _ => attributeNames nodes

/-- The same in the text that this drawing is written as. -/
def namesOfWritten (text : String) : Option (List (String × List (Option String × String))) :=
  (ofString text).toOption.bind fun d => namesOf d.text

theorem exists_of_namesOf {text : String} {names : List (String × List (Option String × String))}
    (h : namesOf text = some names) : ∃ nodes d, readDocument text = .ok nodes ∧
      ofDocument nodes = .ok d ∧ attributeNames nodes = names := by
  obtain ⟨nodes, hread, h⟩ := Option.bind_eq_some_iff.mp h
  obtain ⟨d, hd, rfl⟩ := Option.map_eq_some_iff.mp h
  exact ⟨nodes, d, eq_ok_of_toOption hread, eq_ok_of_toOption hd, rfl⟩

theorem exists_of_namesOfWritten {text : String}
    {names names' : List (String × List (Option String × String))}
    (h : namesOf text = some names) (h' : namesOfWritten text = some names') :
    ∃ nodes d, readDocument text = .ok nodes ∧ ofDocument nodes = .ok d ∧
      attributeNames nodes = names ∧ ∃ nodes' d', readDocument d.text = .ok nodes' ∧
        ofDocument nodes' = .ok d' ∧ attributeNames nodes' = names' := by
  obtain ⟨nodes, d, hread, hd, hnames⟩ := exists_of_namesOf h
  obtain ⟨d₁, hd₁, h'⟩ := Option.bind_eq_some_iff.mp h'
  have hstring : ofString text = .ok d := by
    rw [ofString, hread]
    exact hd
  obtain rfl : d = d₁ := Except.ok.inj (hstring.symm.trans (eq_ok_of_toOption hd₁))
  exact ⟨nodes, d, hread, hd, hnames, exists_of_namesOf h'⟩

/-- A document in which a prefix is bound to another namespace further inside. -/
def shadowingText : String :=
  "<svg xmlns=\"s\" xmlns:x=\"l\" xmlns:y=\"l\"><g xmlns:x=\"m\" x:a=\"1\" y:a=\"2\" a=\"3\"/></svg>"

theorem attributeNames_eq_shadowing : ∃ nodes d, readDocument shadowingText = .ok nodes ∧
    ofDocument nodes = .ok d ∧ (∃ x, nodes.filter (·.isElement) = [x]) ∧
    ∀ x ∈ nodes, x.Rewritable := by
  have hnames : namesOf shadowingText =
      some [("svg", []), ("g", [(some "m", "a"), (some "l", "a"), (none, "a")])] := by
    decide +kernel
  have hwritten : namesOfWritten shadowingText =
      some [("svg", []), ("g", [(some "m", "a"), (some "l", "a"), (none, "a")])] := by
    decide +kernel
  obtain ⟨nodes, d, hread, hd, heq, hreread⟩ := exists_of_namesOfWritten hnames hwritten
  rw [← heq] at hreread
  exact ⟨nodes, d, hread, hd, (attributeNames_eq_iff hread hd).mp hreread⟩

/-- A document in which an attribute is in the default namespace, by a prefix of its own. -/
def aliasedText : String := "<svg xmlns=\"u\" xmlns:p=\"u\" p:a=\"1\"/>"

/-- It is not so that attributes keep their names whenever a drawing that was read is written and
read again: one in the default namespace is left without any. -/
theorem not_forall_attributeNames_eq : ¬∀ text nodes d, readDocument text = .ok nodes →
    ofDocument nodes = .ok d → ∃ nodes' d', readDocument d.text = .ok nodes' ∧
      ofDocument nodes' = .ok d' ∧ attributeNames nodes' = attributeNames nodes := by
  intro h
  have hnames : namesOf aliasedText = some [("svg", [(some "u", "a")])] := by decide +kernel
  have hwritten : namesOfWritten aliasedText = some [("svg", [(none, "a")])] := by decide +kernel
  obtain ⟨nodes, d, hread, hd, heq, nodes', d', hread', -, heq'⟩ :=
    exists_of_namesOfWritten hnames hwritten
  obtain ⟨nodes₁, d₁, hread₁, -, heq₁⟩ := h aliasedText nodes d hread hd
  obtain rfl := Except.ok.inj (hread'.symm.trans hread₁)
  rw [heq, heq'] at heq₁
  exact absurd heq₁ (by decide)

end Drawing
end GraphFolding
