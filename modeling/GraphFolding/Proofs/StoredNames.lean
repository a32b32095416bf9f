/-
Names as a drawing stores them.

A name is stored under the first prefix that is bound to its namespace.  Of the names of a
document that was read, the stored ones are names again:

* `Xml.Scope.storedPrefix`, `storedName_eq_text` — the prefix of a stored name;
* `Xml.QName.ofText_text` — a name put together and taken apart again;
* `Markup.ofNode_legible`, `Drawing.exists_legible` — a drawing that was read can be taken
  apart into what it is written from.
-/
import GraphFolding.Proofs.HeldDocuments
import GraphFolding.Proofs.Legible
import GraphFolding.Proofs.SoundReading
import Mathlib.Data.List.Pairwise
import Mathlib.Data.List.TakeWhile
namespace GraphFolding

open Xml

namespace Xml

/-- The prefix under which a name of a namespace is stored. -/
def Scope.storedPrefix (scope : Scope) (uri : Option String) : String :=
  match uri with
  | none => ""
  | some uri => if uri = xmlUri then "xml" else (scope.prefixFor? uri).getD ""

/-- A name as it is stored, in two parts. -/
def Scope.storedQName (scope : Scope) (uri : Option String) (localPart : String) : QName :=
  ⟨scope.storedPrefix uri, localPart⟩

/-- A name put together is taken apart into the same parts. -/
theorem QName.ofText_text {q : QName} (hq : q.IsValid) : QName.ofText q.text = q := by
  obtain ⟨hqualifier, -, hlocal⟩ := hq
  have hcolon := QName.forall_mem_ne_colon hlocal
  by_cases hempty : q.qualifier = ""
  · have htext : q.text = q.localPart := by rw [QName.text, if_pos (by simp [hempty])]
    rw [QName.ofText, htext, List.dropWhile_eq_nil_iff.mpr hcolon, ← hempty]
  · have hqcolon := QName.forall_mem_ne_colon (hqualifier.resolve_left hempty).2
    rw [QName.ofText, QName.text_of_qualifier hempty, List.dropWhile_append_of_pos hqcolon,
      List.takeWhile_append_of_pos hqcolon]
    simp

theorem isQName_text {q : QName} (hq : q.IsValid) : IsQName q.text := by
  rw [IsQName, QName.ofText_text hq]
  exact ⟨hq, rfl⟩

end Xml

theorem storedName_eq_text (scope : Scope) (uri : Option String) (localPart : String) :
    storedName scope uri localPart = (scope.storedQName uri localPart).text := by
  cases uri with
  | none => rfl
  | some uri =>
    by_cases hxml : uri = Scope.xmlUri
    · rw [storedName, if_pos hxml, Scope.storedQName, Scope.storedPrefix, if_pos hxml]
      rfl
    · rw [storedName, if_neg hxml, Scope.storedQName, Scope.storedPrefix, if_neg hxml]
      cases scope.prefixFor? uri with
      | none => rfl
      | some p => rfl

namespace Xml.Scope

theorem mem_of_prefixFor? {scope : Scope} {uri p : String} (h : scope.prefixFor? uri = some p) :
    (⟨some p, uri⟩ : Binding) ∈ scope := by
  obtain ⟨b, hfind, hname⟩ := Option.bind_eq_some_iff.mp h
  have huri : b.uri = uri := of_decide_eq_true (List.find?_eq_some_iff_append.mp hfind).1
  have hb : b ∈ scope := List.mem_of_find?_eq_some hfind
  rw [← hname, ← huri]
  exact hb

/-- A name is stored with its local part, whatever the prefix. -/
theorem localNameOf_storedName (scope : Scope) (uri : Option String) {localPart : String}
    (hlocal : IsNamePart localPart) :
    Element.localNameOf (storedName scope uri localPart) = localPart := by
  rw [storedName_eq_text]
  exact QName.localNameOf_text hlocal

namespace Coherent

variable {scope : Scope} (hs : scope.Coherent)
include hs

theorem eq_of_name_eq {a b : Binding} (ha : a ∈ scope) (hb : b ∈ scope) {p : String}
    (hap : a.name = some p) (hbp : b.name = some p) : a = b := by
  refine Decidable.byContradiction fun hne => ?_
  have hapart := List.pairwise_filterMap.mp hs.prefixes_nodup
  have : Std.Symm fun a b : Binding => ∀ q, a.name = some q → ∀ q', b.name = some q' → q ≠ q' :=
    ⟨fun a b h q hq q' hq' heq => h q' hq' q hq heq.symm⟩
  exact hapart.forall ha hb hne p hap p hbp rfl

/-- The namespace of a prefix is that of its only binding. -/
theorem uri?_eq {b : Binding} (hb : b ∈ scope) {p : String} (hp : b.name = some p) :
    scope.uri? (some p) = some b.uri := by
  obtain ⟨x, hx⟩ : ∃ x, scope.find? (·.name = some p) = some x := by
    rw [← Option.isSome_iff_exists, List.find?_isSome]
    exact ⟨b, hb, by simp [hp]⟩
  have hname : x.name = some p := of_decide_eq_true (List.find?_eq_some_iff_append.mp hx).1
  have hmem : x ∈ scope := List.mem_of_find?_eq_some hx
  rw [uri?, hx, hs.eq_of_name_eq hmem hb hname hp]
  rfl

theorem isNamePart_storedPrefix (uri : Option String) :
    scope.storedPrefix uri = "" ∨ IsNamePart (scope.storedPrefix uri) := by
  unfold storedPrefix
  split
  · exact .inl rfl
  · rename_i uri
    split
    · exact .inr (by decide)
    · cases hp : scope.prefixFor? uri with
      | none => exact .inl rfl
      | some p => exact .inr ((hs.sound _ (mem_of_prefixFor? hp)).isNamePart p rfl)

theorem isValid_storedQName (uri : Option String) {localPart : String}
    (hlocal : IsNamePart localPart) : (scope.storedQName uri localPart).IsValid :=
  ⟨hs.isNamePart_storedPrefix uri, hlocal⟩

theorem ofText_storedName (uri : Option String) {localPart : String}
    (hlocal : IsNamePart localPart) :
    QName.ofText (storedName scope uri localPart) = scope.storedQName uri localPart := by
  rw [storedName_eq_text, QName.ofText_text (hs.isValid_storedQName uri hlocal)]

/-- The prefix of a stored name is the first one of its namespace. -/
theorem qualifier?_storedQName {uri : String} (hxml : uri ≠ xmlUri) (localPart : String) :
    (scope.storedQName (some uri) localPart).qualifier? = scope.prefixFor? uri := by
  simp only [storedQName, storedPrefix, if_neg hxml]
  rcases hprefix : scope.prefixFor? uri with _ | p
  · rfl
  · have hempty : p ≠ "" := by
      rintro rfl
      exact absurd ((hs.sound _ (mem_of_prefixFor? hprefix)).isNamePart "" rfl) (by decide)
    simp [QName.qualifier?, hempty]

theorem isQName_storedName (uri : Option String) {localPart : String}
    (hlocal : IsNamePart localPart) : IsQName (storedName scope uri localPart) := by
  rw [storedName_eq_text]
  exact isQName_text (hs.isValid_storedQName uri hlocal)

end Coherent
end Xml.Scope

/-! ### Drawings that were read -/

namespace Element

theorem attributes_ofTag (inherited : Scope) (tag : Tag) : (ofTag inherited tag).attributes =
    tag.attributes.map fun a => (storedName tag.scope a.uri a.written.localPart, a.value) := rfl

variable {inherited : Scope} {tag : Tag} (htag : tag.Sound inherited)
include htag

theorem mem_declarations_ofTag {b : Binding} :
    b ∈ (ofTag inherited tag).declarations ↔ b ∈ tag.scope ∧ b ∉ inherited := by
  have hxml : b ∈ tag.scope → b.name ≠ some "xml" := fun hb => (htag.coherent.sound b hb).ne_xml
  simp only [ofTag, List.mem_filter, Bool.and_eq_true, decide_eq_true_eq, Bool.not_eq_true',
    List.contains_eq_mem, decide_eq_false_iff_not]
  tauto

theorem ofTag_legible : (ofTag inherited tag).Legible where
  name := htag.coherent.isQName_storedName _ htag.written.2
  attributes a ha := by
    obtain ⟨x, hx, rfl⟩ := List.mem_map.mp ha
    exact htag.coherent.isQName_storedName _ (htag.attributes x hx).written.2
  declarations b hb :=
    (htag.coherent.sound b ((mem_declarations_ofTag htag).mp hb).1).isNamePart

end Element

namespace Markup

mutual

/-- What a sound node is stored as can be taken apart again. -/
theorem ofNode_legible : ∀ (x : Xml.Node) {inherited : Scope}, x.Sound inherited →
    (ofNode inherited x).Legible
  | .element _ children, _, h => ⟨Element.ofTag_legible h.1, ofNodes_legible children h.2⟩
  | .text _, _, _ => trivial
  | .comment _, _, h => h
  | .instruction .., _, h => h

/-- As `ofNode_legible`, for several nodes. -/
theorem ofNodes_legible : ∀ (xs : List Xml.Node) {inherited : Scope}, AllSound inherited xs →
    AllLegible (ofNodes inherited xs)
  | [], _, _ => trivial
  | x :: xs, _, h => ⟨ofNode_legible x h.1, ofNodes_legible xs h.2⟩

end

/-- The document that sound nodes are stored as. -/
theorem Sketch.legible {xs : List Xml.Node} (hxs : ∀ x ∈ xs, x.Sound []) {root : Markup}
    (hroot : (ofNodes xs).root = some root) :
    Document.Legible ⟨(ofNodes xs).before, root, (ofNodes xs).after⟩ := by
  have haside : ∀ m, m ∈ (ofNodes xs).before ∨ m ∈ (ofNodes xs).after →
      m.isAside = true ∧ m.Legible := by
    intro m hm
    obtain ⟨x, hx, hside, rfl⟩ := (mem_ofNodes xs).mp hm
    refine ⟨?_, ofNode_legible x (hxs x hx)⟩
    cases x with
    | element tag children => simp [isAside] at hside
    | text value => simp [isAside] at hside
    | comment value => rfl
    | instruction target value => rfl
  rw [root_ofNodes] at hroot
  obtain ⟨x, hx, rfl⟩ := List.mem_map.mp (List.mem_of_getLast? hroot)
  obtain ⟨hx, helement⟩ := List.mem_filter.mp hx
  refine ⟨fun m hm => haside m (.inl hm), fun m hm => haside m (.inr hm), ?_,
    ofNode_legible x (hxs x hx)⟩
  cases x with
  | element tag children => rfl
  | _ => simp [Xml.Node.isElement] at helement

end Markup

namespace Drawing

/-- A drawing that was read holds a document that can be taken apart again. -/
theorem exists_legible {text : String} {d : Drawing} (h : ofString text = .ok d) :
    ∃ doc, d.Holds doc ∧ doc.Legible := by
  rw [ofString] at h
  cases hread : readDocument text with
  | error e => simp [hread] at h
  | ok nodes =>
    rw [hread] at h
    obtain ⟨-, root, hroot, hholds⟩ := exists_holds_of_ofDocument h
    exact ⟨_, hholds, Markup.Sketch.legible (readDocument_ensures text nodes hread) hroot⟩

end Drawing
end GraphFolding
