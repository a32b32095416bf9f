/-
Namespaces as a drawing stores them.

An element keeps the bindings that are not in force around it.  With those kept by the elements
around it they give back what every prefix stands for in its start tag, by induction over the tags
from the outermost one inwards.  The default namespace can be declared twice in one tag, since an
attribute with the local name `xmlns` declares it under any prefix.  The first declaration counts,
and it may be the one that is not kept:

* `declaredUri?` — what a name stands for by the declarations of several elements;
* `Xml.Tag.KeepsScope` — no declaration of the default namespace is missed in a tag;
* `Element.reproduces_iff` — one tag, when the bindings around it are found;
* `forall_reproducedWithin_iff` — all tags of a node;
* `Drawing.storedScopes` — the elements of a drawing that was read have the bindings and the names
  of their tags if and only if no declaration is missed, as when no tag has two of them;
* `Drawing.not_forall_reproducesScope` — a default namespace that is declared twice is mistaken.
-/
import GraphFolding.Proofs.NamesAsWritten
namespace GraphFolding

open Xml

namespace Xml

/-- The binding that a name is looked up by. -/
def Scope.binding? (scope : Scope) (name : Option String) : Option Binding :=
  scope.find? (·.name = name)

/-- The default namespace of a start tag, when it is in force around the tag already, is found
there, and no other one is declared; and a name that is kept without a prefix is in the default
namespace. -/
structure Tag.KeepsScope (around : Scope) (tag : Tag) : Prop where
  default : ∀ b ∈ tag.scope.binding? none, b ∈ around →
    around.uri? none = some b.uri ∧ ∀ x ∈ tag.scope, x.name = none → x ∈ around
  name : ∀ uri ∈ tag.uri, tag.scope.prefixFor? uri = none → tag.scope.uri? none = some uri

instance (around : Scope) (tag : Tag) : Decidable (tag.KeepsScope around) :=
  decidable_of_iff ((∀ b ∈ tag.scope.binding? none, b ∈ around →
      around.uri? none = some b.uri ∧ ∀ x ∈ tag.scope, x.name = none → x ∈ around) ∧
    ∀ uri ∈ tag.uri, tag.scope.prefixFor? uri = none → tag.scope.uri? none = some uri)
    ⟨fun h => ⟨h.1, h.2⟩, fun h => ⟨h.default, h.name⟩⟩

/-- The same for the innermost of several start tags. -/
def KeepsScopeWithin : List Tag → Prop
  | [] => True
  | tag :: above => tag.KeepsScope (scopeAround above)

instance : ∀ lineage : List Tag, Decidable (KeepsScopeWithin lineage)
  | [] => inferInstanceAs (Decidable True)
  | tag :: above => inferInstanceAs (Decidable (tag.KeepsScope (scopeAround above)))

/-- A tag in no namespace is one for which there is no default namespace. -/
theorem Tag.Sound.uri?_none {around : Scope} {tag : Tag} (htag : tag.Sound around)
    (h : tag.uri = none) : tag.scope.uri? none = none := by
  have hq : tag.written.qualifier? = none := by
    refine Option.eq_none_iff_forall_not_mem.mpr fun p hp => ?_
    obtain ⟨uri, hbound⟩ := Scope.exists_uri?_of_binds (htag.bound p hp)
    rw [htag.uri_eq, (hp : tag.written.qualifier? = some p), hbound] at h
    exact Option.some_ne_none uri h
  rwa [htag.uri_eq, hq] at h

/-- Bindings among which the default namespace has one at most. -/
def Scope.HasOneDefault (scope : Scope) : Prop :=
  ∀ b ∈ scope, ∀ x ∈ scope, b.name = none → x.name = none → b = x

theorem Scope.HasOneDefault.uri?_eq {scope : Scope} (hs : scope.HasOneDefault) {b : Binding}
    (hb : b ∈ scope) (hname : b.name = none) : scope.uri? none = some b.uri := by
  have hbinds : scope.binds none = true := List.any_eq_true.mpr ⟨b, hb, by simp [hname]⟩
  obtain ⟨uri, huri⟩ := Scope.exists_uri?_of_binds hbinds
  obtain ⟨x, hx, hxname, rfl⟩ := Scope.exists_mem_of_uri? huri
  rw [huri, hs x hx b hb hxname hname]

/-- Nothing is missed when the default namespace has one binding. -/
theorem Tag.Sound.keepsScope {around : Scope} {tag : Tag} (htag : tag.Sound around)
    (haround : around.HasOneDefault) (hs : tag.scope.HasOneDefault) : tag.KeepsScope around where
  default b hfind hold := by
    have hb := List.mem_of_find?_eq_some hfind
    have hname : b.name = none := by simpa using List.find?_some hfind
    refine ⟨haround.uri?_eq hold hname, fun x hx hxname => ?_⟩
    rw [hs x hx b hb hxname hname]
    exact hold
  name uri huri hprefix := by
    obtain ⟨x, hx, hxuri⟩ := htag.uri uri huri
    obtain ⟨b, hfind⟩ : ∃ b, tag.scope.find? (·.uri = uri) = some b := by
      rw [← Option.isSome_iff_exists, List.find?_isSome]
      exact ⟨x, hx, by simp [hxuri]⟩
    rw [Scope.prefixFor?, hfind, Option.bind_some] at hprefix
    have hburi : b.uri = uri := by simpa using List.find?_some hfind
    rw [hs.uri?_eq (List.mem_of_find?_eq_some hfind) hprefix, hburi]

mutual

theorem Node.keepsScopes : ∀ (x : Node) {above : List Tag}, x.Sound (scopeAround above) →
    (scopeAround above).HasOneDefault → (∀ tag ∈ x.tags, tag.scope.HasOneDefault) →
    ∀ lineage ∈ x.lineages above, KeepsScopeWithin lineage
  | .element tag children, above, h, haround, hall => by
    rw [Node.lineages, List.forall_mem_cons]
    rw [Node.tags, List.forall_mem_cons] at hall
    exact ⟨h.1.keepsScope haround hall.1, keepsScopes_of_allSound children h.2 hall.1 hall.2⟩
  | .text _, _, _, _, _ => by simp [Node.lineages]
  | .comment _, _, _, _, _ => by simp [Node.lineages]
  | .instruction .., _, _, _, _ => by simp [Node.lineages]

/-- As `Node.keepsScopes`, for several nodes. -/
theorem keepsScopes_of_allSound : ∀ (xs : List Node) {above : List Tag},
    AllSound (scopeAround above) xs → (scopeAround above).HasOneDefault →
    (∀ tag ∈ allTags xs, tag.scope.HasOneDefault) →
    ∀ lineage ∈ allLineages above xs, KeepsScopeWithin lineage
  | [], _, _, _, _ => by simp [allLineages]
  | x :: xs, above, h, haround, hall => by
    rw [allTags, List.forall_mem_append] at hall
    rw [allLineages, List.forall_mem_append]
    exact ⟨Node.keepsScopes x h.1 haround hall.1, keepsScopes_of_allSound xs h.2 haround hall.2⟩

end

end Xml

/-- What is found first is found first among some, if it is one of them. -/
theorem find?_filter_of_find? {α : Type} {p q : α → Bool} {l : List α} {b : α}
    (h : l.find? q = some b) (hb : p b = true) : (l.filter p).find? q = some b := by
  obtain ⟨hq, before, after, rfl, hbefore⟩ := List.find?_eq_some_iff_append.mp h
  rw [List.filter_append, List.filter_cons_of_pos hb]
  exact List.find?_eq_some_iff_append.mpr
    ⟨hq, _, _, rfl, fun x hx => hbefore x (List.mem_of_mem_filter hx)⟩

/-! ### One element -/

/-- The namespace that a name stands for by the declarations of several elements, the innermost
first. -/
def declaredUri? (lineage : List Element) (name : Option String) : Option String :=
  lineage.findSome? fun e => Scope.uri? e.declarations name

theorem declaredUri?_cons (e : Element) (above : List Element) (name : Option String) :
    declaredUri? (e :: above) name =
      (Scope.uri? e.declarations name).or (declaredUri? above name) := by
  rw [declaredUri?, List.findSome?_cons]
  cases Scope.uri? e.declarations name <;> rfl

/-- Whether declarations give all names but `xml` the namespaces that they have in a scope. -/
def Declares (lineage : List Element) (scope : Scope) : Prop :=
  ∀ name, name ≠ some "xml" → declaredUri? lineage name = scope.uri? name

/-- An element in others that has the bindings of a start tag by their declarations, and under
these the name of the tag. -/
structure Element.Reproduces (e : Element) (above : List Element) (tag : Tag) : Prop where
  declares : Declares (e :: above) tag.scope
  uri : declaredUri? (e :: above) (QName.ofText e.name).qualifier? = tag.uri
  localPart : (QName.ofText e.name).localPart = tag.written.localPart

namespace Element

variable {around : Scope} {tag : Tag} (htag : tag.Sound around)
include htag

/-- The default namespace is found again if no declaration of it is missed. -/
theorem or_uri?_none_eq_iff :
    (Scope.uri? (ofTag around tag).declarations none).or (around.uri? none) =
      tag.scope.uri? none ↔
    ∀ b ∈ tag.scope.binding? none, b ∈ around →
      around.uri? none = some b.uri ∧ ∀ x ∈ tag.scope, x.name = none → x ∈ around := by
  rcases hfind : tag.scope.binding? none with _ | b
  · -- There is no default namespace, here or around.
    have huri : tag.scope.uri? none = none := congrArg (Option.map Binding.uri) hfind
    have hown : Scope.uri? (ofTag around tag).declarations none = none :=
      (uri?_declarations_eq_none_iff htag).mpr fun b hb hname =>
        absurd hname (Scope.uri?_eq_none_iff.mp huri b hb)
    rw [hown, htag.uri?_eq_none huri, huri]
    exact iff_of_true rfl (by simp)
  have hname : b.name = none := by simpa using List.find?_some hfind
  have huri : tag.scope.uri? none = some b.uri := congrArg (Option.map Binding.uri) hfind
  simp only [Option.mem_some_iff, forall_eq', huri]
  by_cases hold : b ∈ around
  · rw [imp_iff_right hold, ← uri?_declarations_eq_none_iff htag]
    constructor
    · intro h
      -- A new binding that is found would be that of the same namespace, which is not new.
      have hown : Scope.uri? (ofTag around tag).declarations none = none := by
        refine Option.eq_none_iff_forall_ne_some.mpr fun uri hnew => ?_
        obtain ⟨x, hx, hxname, rfl⟩ := Scope.exists_mem_of_uri? hnew
        rw [hnew, Option.some_or, Option.some_inj] at h
        obtain rfl : x = b := congrArg₂ Binding.mk (hxname.trans hname.symm) h
        exact ((mem_declarations_ofTag htag).mp hx).2 hold
      rw [hown, Option.none_or] at h
      exact ⟨h, hown⟩
    · rintro ⟨haround, hown⟩
      rw [hown, haround]
      rfl
  · -- The first default binding is new, and so it is the first one that is declared.
    have hown : Scope.uri? (ofTag around tag).declarations none = some b.uri :=
      congrArg (Option.map Binding.uri) (find?_filter_of_find? hfind (by simp [hname, hold]))
    rw [hown]
    exact iff_of_true rfl fun h => absurd h hold

/-- A start tag whose bindings are found has its name again if it is not taken for one in the
default namespace. -/
theorem declaredUri?_name_iff {lineage : List Element} (hdeclares : Declares lineage tag.scope) :
    declaredUri? lineage (QName.ofText (ofTag around tag).name).qualifier? = tag.uri ↔
      ∀ uri ∈ tag.uri, tag.scope.prefixFor? uri = none → tag.scope.uri? none = some uri := by
  have hname : QName.ofText (ofTag around tag).name =
      tag.scope.storedQName tag.uri tag.written.localPart :=
    htag.coherent.ofText_storedName tag.uri htag.written.2
  have hdefault : declaredUri? lineage none = tag.scope.uri? none := hdeclares none (by simp)
  rw [hname]
  rcases huri : tag.uri with _ | uri
  · exact iff_of_true (hdefault.trans (htag.uri?_none huri)) (by simp)
  obtain ⟨b, hb, hburi⟩ := htag.uri uri huri
  have hxml : uri ≠ Scope.xmlUri := hburi ▸ (htag.coherent.sound b hb).uri_ne_xml
  simp only [htag.coherent.qualifier?_storedQName hxml, Option.mem_some_iff, forall_eq']
  rcases hprefix : tag.scope.prefixFor? uri with _ | p
  · rw [imp_iff_right rfl, hdefault]
  · -- No two namespaces are bound to one prefix, so this one is not hidden.
    have hmem := Scope.mem_of_prefixFor? hprefix
    rw [hdeclares (some p) (htag.coherent.sound _ hmem).ne_xml, htag.coherent.uri?_eq hmem rfl]
    exact iff_of_true rfl (by simp)

/-- The element of a start tag has its bindings and its name, if those of the tags around it are
found, if and only if no declaration is missed. -/
theorem reproduces_iff (hs : around.Coherent) {above : List Element}
    (habove : Declares above around) :
    (ofTag around tag).Reproduces above tag ↔ tag.KeepsScope around := by
  have hdefault := or_uri?_none_eq_iff htag
  rw [← habove none (by simp), ← declaredUri?_cons, habove none (by simp)] at hdefault
  have hdeclares : Declares (ofTag around tag :: above) tag.scope ↔
      declaredUri? (ofTag around tag :: above) none = tag.scope.uri? none := by
    refine ⟨fun h => h none (by simp), fun h name hxml => ?_⟩
    cases name with
    | none => exact h
    | some p =>
      rw [declaredUri?_cons, habove (some p) hxml]
      exact or_uri?_declarations_ofTag htag hs p
  have hlocal : (QName.ofText (ofTag around tag).name).localPart =
      (tag.scope.storedQName tag.uri tag.written.localPart).localPart :=
    congrArg QName.localPart (htag.coherent.ofText_storedName tag.uri htag.written.2)
  constructor
  · rintro ⟨hall, huri, -⟩
    exact ⟨hdefault.mp (hdeclares.mp hall), (declaredUri?_name_iff htag hall).mp huri⟩
  · rintro ⟨hnotmissed, huri⟩
    have hall := hdeclares.mpr (hdefault.mpr hnotmissed)
    exact ⟨hall, (declaredUri?_name_iff htag hall).mpr huri, hlocal⟩

end Element

/-! ### All elements of a document -/

/-- Whether the innermost of several start tags is reproduced where all of them are stored. -/
def ReproducedWithin : List Tag → Prop
  | [] => True
  | tag :: above =>
    (Element.ofTag (scopeAround above) tag).Reproduces (Drawing.storedLineage above) tag

mutual

/-- All tags of a node are reproduced if and only if none of their declarations is missed. -/
theorem forall_reproducedWithin_iff : ∀ (x : Xml.Node) {above : List Tag},
    x.Sound (scopeAround above) → (scopeAround above).Coherent →
    Declares (Drawing.storedLineage above) (scopeAround above) →
    ((∀ lineage ∈ x.lineages above, ReproducedWithin lineage) ↔
      ∀ lineage ∈ x.lineages above, KeepsScopeWithin lineage)
  | .element tag children, above, h, hs, habove => by
    have hself : ReproducedWithin (tag :: above) ↔ KeepsScopeWithin (tag :: above) :=
      Element.reproduces_iff h.1 hs habove
    -- What stands in the element is looked at under the bindings that are reproduced in it.
    have hchildren : ReproducedWithin (tag :: above) →
        ((∀ lineage ∈ allLineages (tag :: above) children, ReproducedWithin lineage) ↔
          ∀ lineage ∈ allLineages (tag :: above) children, KeepsScopeWithin lineage) :=
      fun hreproduced => forall_reproducedWithin_iff_of_allSound children h.2 h.1.coherent
        hreproduced.declares
    rw [Node.lineages, List.forall_mem_cons, List.forall_mem_cons, ← hself]
    exact and_congr_right hchildren
  | .text _, _, _, _, _ => by simp [Node.lineages]
  | .comment _, _, _, _, _ => by simp [Node.lineages]
  | .instruction .., _, _, _, _ => by simp [Node.lineages]

/-- As `forall_reproducedWithin_iff`, for several nodes. -/
theorem forall_reproducedWithin_iff_of_allSound : ∀ (xs : List Xml.Node) {above : List Tag},
    AllSound (scopeAround above) xs → (scopeAround above).Coherent →
    Declares (Drawing.storedLineage above) (scopeAround above) →
    ((∀ lineage ∈ allLineages above xs, ReproducedWithin lineage) ↔
      ∀ lineage ∈ allLineages above xs, KeepsScopeWithin lineage)
  | [], _, _, _, _ => by simp [allLineages]
  | x :: xs, above, h, hs, habove => by
    rw [allLineages, List.forall_mem_append, List.forall_mem_append,
      forall_reproducedWithin_iff x h.1 hs habove,
      forall_reproducedWithin_iff_of_allSound xs h.2 hs habove]

end

namespace Drawing

variable {d : Drawing}

/-- An element that has, by the declarations kept at it and at those around it, the bindings in
force in a start tag, the prefix `xml` aside, and under these the name of the tag. -/
def ReproducesScope (d : Drawing) (id : NodeId) (tag : Tag) : Prop :=
  ∃ e above, d.StandsIn id (e :: above) ∧ e.Reproduces above tag

theorem reproducesScope_iff {id : NodeId} {tag : Tag} {above : List Tag}
    (h : d.StandsIn id (storedLineage (tag :: above))) :
    d.ReproducesScope id tag ↔ ReproducedWithin (tag :: above) := by
  constructor
  · rintro ⟨e, elements, hstands, hreproduces⟩
    obtain ⟨rfl, rfl⟩ := List.cons.inj (hstands.eq h)
    exact hreproduces
  · exact fun hreproduces => ⟨_, _, h, hreproduces⟩

/-- All elements reproduce their tags if and only if none of the declarations is missed. -/
theorem forall₂_reproducesScope_iff {text : String} {nodes : List Xml.Node}
    (hread : readDocument text = .ok nodes) (h : ofDocument nodes = .ok d) :
    List.Forall₂ d.ReproducesScope d.elementIds (allTags nodes) ↔
      ∀ lineage ∈ allLineages [] nodes, KeepsScopeWithin lineage := by
  have hstands := standsIn_ofDocument h
  have hsound : AllSound [] nodes := allSound_iff.mpr (readDocument_ensures text nodes hread)
  have hone : ∀ id, ∀ lineage ∈ allLineages [] nodes, d.StandsIn id (storedLineage lineage) →
      ((∀ tag ∈ lineage.head?, d.ReproducesScope id tag) ↔ ReproducedWithin lineage) := by
    intro id lineage _ hid
    cases lineage with
    | nil => exact iff_of_true (by simp) trivial
    | cons tag above =>
      rw [← reproducesScope_iff hid]
      simp
  have htags : List.Forall₂ d.ReproducesScope d.elementIds (allTags nodes) ↔
      List.Forall₂ (fun id lineage => ∀ tag ∈ lineage.head?, d.ReproducesScope id tag)
        d.elementIds (allLineages [] nodes) := by
    have hheads : List.Forall₂ (fun id tag? => ∀ tag ∈ tag?, d.ReproducesScope id tag) d.elementIds
        ((allLineages [] nodes).map List.head?) ↔ _ := List.forall₂_map_right_iff
    rw [← hheads, head?_allLineages, List.forall₂_map_right_iff]
    simp
  rw [htags, forall₂_iff_forall_mem hstands hone]
  exact forall_reproducedWithin_iff_of_allSound nodes hsound Scope.coherent_nil fun _ _ => rfl

/-- The declarations that a drawing that was read has kept reproduce the bindings in force in every
start tag, and the names of all elements, if and only if no declaration of a default namespace is
missed.  So it is when no tag has two default namespaces, however they are shadowed, declared
again or undone. -/
theorem storedScopes {text : String} {nodes : List Xml.Node}
    (hread : readDocument text = .ok nodes) (h : ofDocument nodes = .ok d) :
    (List.Forall₂ d.ReproducesScope d.elementIds (allTags nodes) ↔
      ∀ lineage ∈ allLineages [] nodes, KeepsScopeWithin lineage) ∧
    ((∀ tag ∈ allTags nodes, tag.scope.HasOneDefault) →
      List.Forall₂ d.ReproducesScope d.elementIds (allTags nodes)) := by
  have hiff := forall₂_reproducesScope_iff hread h
  have hsound : AllSound [] nodes := allSound_iff.mpr (readDocument_ensures text nodes hread)
  refine ⟨hiff, fun hall => hiff.mpr ?_⟩
  exact keepsScopes_of_allSound nodes hsound (by simp [scopeAround, Scope.HasOneDefault]) hall

/-- Whether a text can be read, and so that no declaration is missed. -/
def keepsScopes (text : String) : Bool :=
  (readDocument text).toOption.any fun nodes =>
    decide (∀ lineage ∈ allLineages [] nodes, KeepsScopeWithin lineage)

theorem keepsScopes_eq {text : String} {nodes : List Xml.Node}
    (hread : readDocument text = .ok nodes) :
    keepsScopes text = decide (∀ lineage ∈ allLineages [] nodes, KeepsScopeWithin lineage) := by
  rw [keepsScopes, hread]
  rfl

/-- A document in which a prefix and the default namespace are bound to something else further
inside, and again to what they were further inside, where another default namespace comes second. -/
def undoneText : String :=
  "<svg xmlns=\"a\" xmlns:p=\"b\"><p:g xmlns=\"\" xmlns:p=\"c\">" ++
    "<g xmlns=\"a\" p:xmlns=\"b\" xmlns:p=\"b\"/></p:g></svg>"

theorem storedScopes_undone : ∃ nodes d, readDocument undoneText = .ok nodes ∧
    ofDocument nodes = .ok d ∧ (allTags nodes).map (·.uri) = [some "a", some "c", some "a"] ∧
    List.Forall₂ d.ReproducesScope d.elementIds (allTags nodes) := by
  have hkeeps : keepsScopes undoneText = true := by decide +kernel
  have htags : (tagsOf undoneText).any
      (fun x => x.1.map (·.uri) = [some "a", some "c", some "a"]) = true := by decide +kernel
  obtain ⟨nodes, d, hread, hd, huris⟩ := exists_of_tagsOf htags
  rw [keepsScopes_eq hread] at hkeeps
  exact ⟨nodes, d, hread, hd, of_decide_eq_true huris,
    (storedScopes hread hd).1.mpr (of_decide_eq_true hkeeps)⟩

/-- A document in which the default namespace is declared again, and another one after it. -/
def redeclaredText : String := "<svg xmlns=\"a\"><g xmlns=\"a\" p:xmlns=\"b\" xmlns:p=\"q\"/></svg>"

/-- Not every element has the bindings and the name of its start tag: of two default namespaces the
one that is in force around it is not kept, and the other one is mistaken for it. -/
theorem not_forall_reproducesScope : ¬∀ text nodes d, readDocument text = .ok nodes →
    ofDocument nodes = .ok d →
    List.Forall₂ d.ReproducesScope d.elementIds (allTags nodes) := by
  intro h
  have hmissed : keepsScopes redeclaredText = false := by decide +kernel
  have htags : (tagsOf redeclaredText).any (fun _ => true) = true := by decide +kernel
  obtain ⟨nodes, d, hread, hd, -⟩ := exists_of_tagsOf htags
  have hkeeps := (forall₂_reproducesScope_iff hread hd).mp (h _ nodes d hread hd)
  rw [keepsScopes_eq hread] at hmissed
  exact of_decide_eq_false hmissed hkeeps

end Drawing
end GraphFolding
