/-
Markup as it is read.

What is written need not be well formed: values may hold forbidden characters, prefixes may be
unbound, attributes may be called what declarations are called.  As long as names are names it
is still known whether it is accepted, and what is read of it:

* `Element.Legible`, `Markup.Legible` — markup that is taken apart into what it was written
  from;
* `Element.Readable`, `Markup.Readable` — whether it is accepted;
* `Element.readTag`, `Markup.read` — what is read of it: text that stands beside text becomes
  one, and its line ends are normalised;
* `Markup.WellFormed.readable` — well-formed markup is accepted, and read as what it stands for.
-/
import GraphFolding.Proofs.Escaping
import GraphFolding.Proofs.ScopeLaws
namespace GraphFolding

open Xml

/-! ### Tags -/

namespace Xml

/-- A declaration as an attribute: its name. -/
def Binding.written (b : Binding) : QName :=
  match b.name with
  | some p => ⟨"xmlns", p⟩
  | none => ⟨"", "xmlns"⟩

/-- Whether an attribute with a name is a declaration. -/
def QName.declares (q : QName) : Bool := q.qualifier = "xmlns" || q.localPart = "xmlns"

/-- The binding that a written attribute declares, if it is a declaration; one of the prefix
`xml` says nothing new. -/
def binding? (pair : QName × String) : Option Binding :=
  if pair.1.qualifier = "xmlns" then
    if pair.2 = Scope.xmlUri then none else some ⟨some pair.1.localPart, pair.2⟩
  else if pair.1.localPart = "xmlns" then some ⟨none, pair.2⟩
  else none

theorem Binding.isValid_written {b : Binding} (h : ∀ p ∈ b.name, IsNamePart p) :
    b.written.IsValid := by
  have hxmlns : IsNamePart "xmlns" := by decide
  unfold Binding.written
  split
  · rename_i p hp
    exact ⟨.inr hxmlns, h p hp⟩
  · exact ⟨.inl rfl, hxmlns⟩

theorem Binding.declares_written (b : Binding) : b.written.declares = true := by
  obtain ⟨name, uri⟩ := b
  cases name with
  | none => rfl
  | some p => rfl

/-- Whether a written attribute may stand after declarations. -/
def IsAcceptable (declared : Scope) (pair : QName × String) : Prop :=
  if pair.1.qualifier = "xmlns" then
    pair.2 ≠ Scope.xmlnsUri ∧ (pair.1.localPart = "xml" ↔ pair.2 = Scope.xmlUri) ∧
      declared.binds (some pair.1.localPart) = false
  else pair.1.localPart = "xmlns" → pair.2 ≠ Scope.xmlUri ∧ pair.2 ≠ Scope.xmlnsUri

/-- As `IsAcceptable`, for several attributes one after the other, whose values hold allowed
characters. -/
def AllAcceptable (declared : Scope) : List (QName × String) → Prop
  | [] => True
  | pair :: pairs => (IsAllowedText pair.2 ∧ IsAcceptable declared pair) ∧
      AllAcceptable (declared ++ (binding? pair).toList) pairs

end Xml

namespace Element

/-- The declarations of an element, and then its attributes, as they are written. -/
def pairs (e : Element) : List (QName × String) :=
  e.declarations.map (fun b => (b.written, b.uri)) ++
    e.attributes.map (fun a => (QName.ofText a.1, a.2))

/-- The bindings that the written tag of an element declares. -/
def declared (e : Element) : Scope := e.pairs.filterMap binding?

/-- The attributes of an element that are not called what declarations are called. -/
def plainAttributes (e : Element) : List (String × String) :=
  e.attributes.filter fun a => !(QName.ofText a.1).declares

/-- The bindings in force at an element once it has been written. -/
def readScope (inherited : Scope) (e : Element) : Scope := Scope.extend e.declared inherited

/-- The start tag that is read of the written tag of an element. -/
def readTag (inherited : Scope) (e : Element) : Tag where
  written := QName.ofText e.name
  uri := (e.readScope inherited).uri? (QName.ofText e.name).qualifier?
  scope := e.readScope inherited
  attributes := e.plainAttributes.map (e.readScope inherited).attribute

/-- An element whose names are names. -/
structure Legible (e : Element) : Prop where
  name : IsQName e.name
  attributes : ∀ a ∈ e.attributes, IsQName a.1
  declarations : ∀ b ∈ e.declarations, ∀ p ∈ b.name, IsNamePart p

/-- An element whose names are bound once its tag has been written, its attributes to different
names. -/
structure Resolvable (inherited : Scope) (e : Element) : Prop where
  attributes_bound : ∀ a ∈ e.plainAttributes, IsBound (e.readScope inherited) a.1
  attributes_apart : (e.plainAttributes.map (e.readScope inherited).attribute).Pairwise
    fun a b => Builder.sameName a b = false
  name_bound : ∀ p ∈ (QName.ofText e.name).qualifier?,
    (e.readScope inherited).binds (some p) = true

/-- An element whose written tag is accepted. -/
structure Readable (inherited : Scope) (e : Element) : Prop extends Resolvable inherited e where
  not_xmlns : (QName.ofText e.name).qualifier ≠ "xmlns"
  values : AllAcceptable [] e.pairs

/-- The conditions on a tag in the order in which they are looked at. -/
theorem readable_iff {inherited : Scope} {e : Element} : e.Readable inherited ↔
    (QName.ofText e.name).qualifier ≠ "xmlns" ∧ AllAcceptable [] e.pairs ∧
      e.Resolvable inherited :=
  ⟨fun h => ⟨h.not_xmlns, h.values, h.toResolvable⟩, fun ⟨h₁, h₂, h₃⟩ => ⟨h₃, h₁, h₂⟩⟩

end Element

/-! ### Markup -/

namespace Markup

/-- The text of markup that is text. -/
def ownText : Markup → String
  | text value => value
  | _ => ""

/-- An instruction that is taken apart into its target and its value. -/
def InstructionLegible (target : String) (value : Option String) : Prop :=
  IsName target ∧ ∀ v ∈ value, IsAllowedText v ∧ v ≠ "" ∧
    v.toList.head?.all (!isBlank ·) = true ∧ ¬['?', '>'] <:+: v.toList

mutual

/-- Markup that is taken apart into what it was written from. -/
def Legible : Markup → Prop
  | element e children => e.Legible ∧ AllLegible children
  | text _ => True
  | comment value => CommentWellFormed value
  | instruction target value => InstructionLegible target value

/-- As `Legible`, for several of them. -/
def AllLegible : List Markup → Prop
  | [] => True
  | m :: rest => m.Legible ∧ AllLegible rest

end

mutual

/-- Markup that is accepted where it is written, in a scope inherited from around it.  An
instruction for `xml` that has a value is taken for a declaration. -/
def Readable (inherited : Scope) : Markup → Prop
  | element e children => e.Readable inherited ∧ AllReadable (e.readScope inherited) children
  | text value => IsAllowedText value
  | comment _ => True
  | instruction target value => target = "xml" → value = none

/-- As `Readable`, for several of them. -/
def AllReadable (inherited : Scope) : List Markup → Prop
  | [] => True
  | m :: rest => m.Readable inherited ∧ AllReadable inherited rest

end

/-- The node that is read of text, unless nothing is written of it. -/
def textNodes (value : String) : List Xml.Node :=
  if value = "" then [] else [.text (readText value)]

mutual

/-- The document node that is read of markup. -/
def read (inherited : Scope) : Markup → Xml.Node
  | element e children =>
    .element (e.readTag inherited) (readAll (e.readScope inherited) "" children)
  | text value => .text (readText value)
  | comment value => .comment value
  | instruction target value => .instruction target value

/-- The document nodes that are read of several of them after text that directly precedes
them. -/
def readAll (inherited : Scope) (pending : String) : List Markup → List Xml.Node
  | [] => textNodes pending
  | m :: rest =>
    if m.isText then readAll inherited (pending ++ m.ownText) rest
    else textNodes pending ++ m.read inherited :: readAll inherited "" rest

end

theorem append_inj_iff {α : Type} {xs ys : List α} (h : xs.length = ys.length)
    (xs' ys' : List α) : xs ++ xs' = ys ++ ys' ↔ xs = ys ∧ xs' = ys' :=
  ⟨fun heq => List.append_inj heq h, fun heq => by rw [heq.1, heq.2]⟩

/-- What is gathered from nodes that are no text is gathered from the markup they are read of. -/
theorem flatMap_readAll {α : Type} {f : Xml.Node → List α} (hf : ∀ value, f (.text value) = [])
    (inherited : Scope) (ms : List Markup) : ∀ (pending : String),
    (readAll inherited pending ms).flatMap f = ms.flatMap fun m => f (m.read inherited) := by
  have htext : ∀ pending, (textNodes pending).flatMap f = [] := by
    intro pending
    unfold textNodes
    split
    · rfl
    · simp [hf]
  induction ms with
  | nil => exact htext
  | cons m ms ih =>
    intro pending
    rw [readAll, List.flatMap_cons]
    cases m with
    | text value => rw [isText, if_pos rfl, ih, read, hf, List.nil_append]
    | element e children =>
      rw [if_neg (by simp [isText]), List.flatMap_append, htext, List.nil_append,
        List.flatMap_cons, ih]
    | comment value =>
      rw [if_neg (by simp [isText]), List.flatMap_append, htext, List.nil_append,
        List.flatMap_cons, ih]
    | instruction target value =>
      rw [if_neg (by simp [isText]), List.flatMap_append, htext, List.nil_append,
        List.flatMap_cons, ih]

/-! ### Whole documents -/

/-- A document around an element that is taken apart into what it was written from. -/
structure Document.Legible (doc : Document) : Prop where
  prologue : ∀ m ∈ doc.prologue, m.isAside = true ∧ m.Legible
  epilogue : ∀ m ∈ doc.epilogue, m.isAside = true ∧ m.Legible
  root_element : doc.root.isElement = true
  root : doc.root.Legible

/-- A document that is accepted. -/
def Document.Readable (doc : Document) : Prop :=
  (∀ m ∈ doc.prologue, m.Readable []) ∧ doc.root.Readable [] ∧ ∀ m ∈ doc.epilogue, m.Readable []

/-- The document nodes that are read of a document. -/
def Document.read (doc : Document) : List Xml.Node :=
  doc.prologue.map (Markup.read []) ++ doc.root.read [] :: doc.epilogue.map (Markup.read [])

end Markup

/-! ### Declarations that are accepted -/

/-- A declaration that is accepted where it is written, unless its prefix is declared twice. -/
structure Xml.Binding.Declarable (b : Binding) : Prop where
  uri_allowed : IsAllowedText b.uri
  ne_xml : b.name ≠ some "xml"
  uri_ne_xml : b.uri ≠ Scope.xmlUri
  uri_ne_xmlns : b.uri ≠ Scope.xmlnsUri

theorem Xml.Binding.WellFormed.declarable {b : Binding} (h : b.WellFormed) : b.Declarable :=
  ⟨h.uri_allowed, h.ne_xml, h.uri_ne_xml, h.uri_ne_xmlns⟩

namespace Xml

theorem binding?_written {b : Binding} (h : b.uri ≠ Scope.xmlUri) :
    binding? (b.written, b.uri) = some b := by
  obtain ⟨name, uri⟩ := b
  cases name with
  | none => rfl
  | some p => simpa [binding?, Binding.written] using h

theorem filterMap_written {bs : Scope} (h : ∀ b ∈ bs, b.uri ≠ Scope.xmlUri) :
    (bs.map fun b => (b.written, b.uri)).filterMap binding? = bs := by
  rw [List.filterMap_map]
  exact (List.filterMap_congr fun b hb => binding?_written (h b hb)).trans List.filterMap_some

theorem binding?_of_not_declares {pair : QName × String} (h : pair.1.declares = false) :
    binding? pair = none := by
  simp only [QName.declares, Bool.or_eq_false_iff, decide_eq_false_iff_not] at h
  rw [binding?, if_neg h.1, if_neg h.2]

theorem isAcceptable_of_not_declares {pair : QName × String} (h : pair.1.declares = false)
    (declared : Scope) : IsAcceptable declared pair := by
  simp only [QName.declares, Bool.or_eq_false_iff, decide_eq_false_iff_not] at h
  rw [IsAcceptable, if_neg h.1]
  exact fun h' => absurd h' h.2

theorem isAcceptable_written {b : Binding} (hb : b.Declarable) {declared : Scope}
    (hnew : ∀ p ∈ b.name, p ∉ declared.filterMap (·.name)) :
    IsAcceptable declared (b.written, b.uri) := by
  obtain ⟨name, uri⟩ := b
  cases name with
  | none => exact fun _ => ⟨hb.uri_ne_xml, hb.uri_ne_xmlns⟩
  | some p =>
    have hxml : p ≠ "xml" := fun h => hb.ne_xml (congrArg some h)
    refine ⟨hb.uri_ne_xmlns, iff_of_false hxml hb.uri_ne_xml, ?_⟩
    refine Bool.eq_false_iff.mpr fun h => hnew p rfl ?_
    obtain ⟨x, hx, hname⟩ := List.any_eq_true.mp h
    exact List.mem_filterMap.mpr ⟨x, hx, of_decide_eq_true hname⟩

theorem allAcceptable_append {pairs pairs' : List (QName × String)} : ∀ {declared : Scope},
    AllAcceptable declared (pairs ++ pairs') ↔ AllAcceptable declared pairs ∧
      AllAcceptable (declared ++ pairs.filterMap binding?) pairs' := by
  induction pairs with
  | nil => simp [AllAcceptable]
  | cons pair pairs ih =>
    intro declared
    have hbindings : declared ++ (pair :: pairs).filterMap binding? =
        declared ++ (binding? pair).toList ++ pairs.filterMap binding? := by
      rw [List.filterMap_cons]
      cases binding? pair <;> simp
    rw [List.cons_append, AllAcceptable, ih, AllAcceptable, hbindings, ← and_assoc]

/-- Declarations of different prefixes are accepted one after the other. -/
theorem allAcceptable_declarations {ds : List Binding} : ∀ {declared : Scope},
    (∀ d ∈ ds, d.Declarable) → ((declared ++ ds).filterMap (·.name)).Nodup →
    AllAcceptable declared (ds.map fun d => (d.written, d.uri)) := by
  induction ds with
  | nil => exact fun _ _ => trivial
  | cons d ds ih =>
    intro declared hds hnodup
    have hd := hds d List.mem_cons_self
    have hnew : ∀ p ∈ d.name, p ∉ declared.filterMap (·.name) := by
      intro p hp hmem
      rw [List.filterMap_append] at hnodup
      exact List.disjoint_of_nodup_append hnodup hmem
        (List.mem_filterMap.mpr ⟨d, List.mem_cons_self, hp⟩)
    rw [List.map_cons, AllAcceptable, binding?_written hd.uri_ne_xml]
    refine ⟨⟨hd.uri_allowed, isAcceptable_written hd hnew⟩, ih ?_ ?_⟩
    · exact fun x hx => hds x (List.mem_cons_of_mem d hx)
    · simpa using hnodup

theorem allAcceptable_of_not_declares {pairs : List (QName × String)} : ∀ {declared : Scope},
    (∀ pair ∈ pairs, pair.1.declares = false ∧ IsAllowedText pair.2) →
    AllAcceptable declared pairs := by
  induction pairs with
  | nil => exact fun _ => trivial
  | cons pair pairs ih =>
    intro declared hpairs
    obtain ⟨hpair, hvalue⟩ := hpairs pair List.mem_cons_self
    exact ⟨⟨hvalue, isAcceptable_of_not_declares hpair declared⟩,
      ih fun x hx => hpairs x (List.mem_cons_of_mem pair hx)⟩

/-- After a prefix has been declared, no further attribute declares it. -/
theorem binds_filterMap_binding? {p : String} {pairs : List (QName × String)} :
    ∀ {declared : Scope}, AllAcceptable declared pairs → declared.binds (some p) = true →
    Scope.binds (pairs.filterMap binding?) (some p) = false := by
  induction pairs with
  | nil => exact fun _ _ => rfl
  | cons pair pairs ih =>
    intro declared h hbinds
    obtain ⟨⟨-, hpair⟩, hmore⟩ := h
    have hrest := ih hmore (by rw [Scope.binds, List.any_append, ← Scope.binds, hbinds]; rfl)
    rw [List.filterMap_cons]
    rcases hbinding : binding? pair with _ | b
    · exact hrest
    · have hname : b.name ≠ some p := by
        intro hname
        rw [binding?] at hbinding
        rw [IsAcceptable] at hpair
        split at hbinding
        · rename_i hq
          rw [if_pos hq] at hpair
          split at hbinding
          · simp at hbinding
          · obtain rfl := Option.some_inj.mp hbinding
            rw [Option.some_inj.mp hname, hbinds] at hpair
            exact absurd hpair.2.2 (by decide)
        · split at hbinding
          · obtain rfl := Option.some_inj.mp hbinding
            simp at hname
          · simp at hbinding
      rw [Scope.binds, List.any_cons, ← Scope.binds, hrest, Bool.or_false]
      exact decide_eq_false hname

end Xml

namespace Element

variable {e : Element}

theorem plainAttributes_eq (h : ∀ a ∈ e.attributes, (QName.ofText a.1).declares = false) :
    e.plainAttributes = e.attributes :=
  List.filter_eq_self.mpr fun a ha => by rw [h a ha]; rfl

/-- What is declared once an element has been written: its declarations, and what attributes declare
that are called what declarations are called. -/
theorem declared_eq_append (huris : ∀ d ∈ e.declarations, d.uri ≠ Scope.xmlUri) :
    e.declared = e.declarations ++
      (e.attributes.map fun a => (QName.ofText a.1, a.2)).filterMap binding? := by
  rw [declared, pairs, List.filterMap_append, filterMap_written huris]

theorem declared_eq (huris : ∀ d ∈ e.declarations, d.uri ≠ Scope.xmlUri)
    (h : ∀ a ∈ e.attributes, (QName.ofText a.1).declares = false) :
    e.declared = e.declarations := by
  rw [declared_eq_append huris, List.append_right_eq_self, List.filterMap_eq_nil_iff]
  intro pair hpair
  obtain ⟨a, ha, rfl⟩ := List.mem_map.mp hpair
  exact binding?_of_not_declares (h a ha)

/-- A tag without attributes called what declarations are called. -/
theorem allAcceptable_pairs (hdeclarations : ∀ d ∈ e.declarations, d.Declarable)
    (hnodup : (e.declarations.filterMap (·.name)).Nodup)
    (hattributes : ∀ a ∈ e.attributes, (QName.ofText a.1).declares = false ∧ IsAllowedText a.2) :
    AllAcceptable [] e.pairs := by
  rw [pairs, allAcceptable_append]
  refine ⟨allAcceptable_declarations hdeclarations hnodup, allAcceptable_of_not_declares ?_⟩
  intro pair hpair
  obtain ⟨a, ha, rfl⟩ := List.mem_map.mp hpair
  exact hattributes a ha

end Element

/-! ### Well-formed markup -/

/-- Attributes that are stored under different names are different. -/
theorem sameName_attribute {scope : Scope} (hs : scope.Sound) {a a' : String × String}
    (ha : IsQName a.1 ∧ Element.IsBound scope a.1)
    (ha' : IsQName a'.1 ∧ Element.IsBound scope a'.1) (hne : a.1 ≠ a'.1) :
    Builder.sameName (scope.attribute a) (scope.attribute a') = false := by
  refine Bool.eq_false_iff.mpr fun h => hne ?_
  rw [Builder.sameName, Bool.and_eq_true, decide_eq_true_eq, decide_eq_true_eq] at h
  obtain ⟨huri, hlocal⟩ := h
  -- The name stored is a function of namespace and local part.
  have hstored := storedName_attribute hs ha.1 ha.2
  have hstored' := storedName_attribute hs ha'.1 ha'.2
  simp only [Scope.attribute] at huri hlocal
  rw [huri, hlocal] at hstored
  exact hstored.symm.trans hstored'

namespace Element.WellFormed

variable {e : Element} {inherited : Scope} (he : e.WellFormed inherited) (hplain : e.Plain)
  (hs : ∀ b ∈ inherited, b.WellFormed)
include he hplain

theorem legible : e.Legible :=
  ⟨he.name.1, fun a ha => (he.attributes a ha).1, hplain.declarations⟩

theorem not_declares : ∀ a ∈ e.attributes, (QName.ofText a.1).declares = false := by
  intro a ha
  obtain ⟨-, -, -, hqualifier, -⟩ := he.attributes a ha
  simp [QName.declares, hqualifier, hplain.attributes a ha]

theorem readScope_eq : e.readScope inherited = e.scope inherited := by
  have hdeclared := declared_eq (fun d hd => (he.declarations d hd).1.uri_ne_xml)
    (he.not_declares hplain)
  rw [readScope, hdeclared, scope]

theorem readTag_eq : e.readTag inherited = e.tag inherited := by
  rw [readTag, he.readScope_eq hplain, plainAttributes_eq (he.not_declares hplain), tag]

include hs

theorem readable : e.Readable inherited := by
  have hsound := he.scope_sound hs
  have hscope := he.readScope_eq hplain
  have hattributes := plainAttributes_eq (he.not_declares hplain)
  refine ⟨⟨?_, ?_, ?_⟩, ?_, ?_⟩
  · intro a ha
    rw [hattributes] at ha
    rw [hscope]
    exact (he.attributes a ha).2.1
  · rw [hscope, hattributes]
    have hnames : e.attributes.Pairwise fun a a' => a.1 ≠ a'.1 :=
      List.pairwise_map.mp he.attributes_nodup
    refine List.pairwise_map.mpr (hnames.imp_of_mem fun {a a'} ha ha' hne => ?_)
    exact sameName_attribute hsound ⟨(he.attributes a ha).1, (he.attributes a ha).2.1⟩
      ⟨(he.attributes a' ha').1, (he.attributes a' ha').2.1⟩ hne
  · intro p hp
    rw [hscope]
    have hxml : p ≠ "xml" :=
      fun h => hplain.name ((QName.qualifier?_eq_some hp).1.trans h)
    exact (he.name.2 p hp).resolve_left hxml
  · -- No scope binds the prefix `xmlns`, so no name in it can have it.
    intro h
    have hq : (QName.ofText e.name).qualifier? = some "xmlns" := by
      rw [QName.qualifier?, h]
      rfl
    obtain ⟨d, hd, hdname⟩ := List.any_eq_true.mp
      ((he.name.2 "xmlns" hq).resolve_left (by decide))
    exact (hsound.wellFormed d hd).ne_xmlns (of_decide_eq_true hdname)
  · refine allAcceptable_pairs (fun d hd => (he.declarations d hd).1.declarable)
      he.prefixes_nodup fun a ha => ?_
    exact ⟨he.not_declares hplain a ha, (he.attributes a ha).2.2.2.2⟩

end Element.WellFormed

namespace Markup

/-- Text that no text follows is a node of its own. -/
theorem readAll_text {inherited : Scope} {m : Markup} (hm : m.WellFormed inherited)
    (htext : m.isText = true) {ms : List Markup} (hnext : ∀ n ∈ ms.head?, n.isText = false) :
    readAll inherited ("" ++ m.ownText) ms = m.read inherited :: readAll inherited "" ms := by
  cases m with
  | text value =>
    have hvalue : value ≠ "" := hm.1
    cases ms with
    | nil => simp [readAll, textNodes, ownText, read, hvalue]
    | cons n ms =>
      have hn : n.isText = false := hnext n rfl
      simp [readAll, textNodes, ownText, read, hvalue, hn]
  | element e children => simp [isText] at htext
  | comment value => simp [isText] at htext
  | instruction target value => simp [isText] at htext

mutual

/-- Well-formed markup is accepted, and read as what it stands for. -/
theorem WellFormed.readable : ∀ (m : Markup) {inherited : Scope}, m.WellFormed inherited →
    m.Plain → (∀ b ∈ inherited, b.WellFormed) →
    m.Legible ∧ m.Readable inherited ∧ m.read inherited = m.node inherited
  | .element e children, inherited, hwf, hplain, hs => by
    obtain ⟨he, hsep, hall⟩ := hwf
    have hscope := he.readScope_eq hplain.1
    obtain ⟨hlegible, hreadable, hread⟩ := AllWellFormed.readable children hall hplain.2
      (he.scope_sound hs).wellFormed hsep
    rw [← hscope] at hreadable hread
    refine ⟨⟨he.legible hplain.1, hlegible⟩, ⟨he.readable hplain.1 hs, hreadable⟩, ?_⟩
    rw [read, he.readTag_eq hplain.1, hread, node, hscope]
  | .text value, inherited, hwf, _, _ =>
    ⟨trivial, hwf.2.1, congrArg Xml.Node.text (readText_of_no_return hwf.2.2)⟩
  | .comment value, inherited, hwf, _, _ => ⟨hwf, trivial, rfl⟩
  | .instruction target value, inherited, hwf, _, _ =>
    ⟨⟨hwf.1, hwf.2.2⟩, fun h => absurd h hwf.2.1, rfl⟩

/-- As `WellFormed.readable`, for several of them, in which no text stands beside text. -/
theorem AllWellFormed.readable : ∀ (ms : List Markup) {inherited : Scope},
    AllWellFormed inherited ms → AllPlain ms → (∀ b ∈ inherited, b.WellFormed) → Separated ms →
    AllLegible ms ∧ AllReadable inherited ms ∧ readAll inherited "" ms = nodes inherited ms
  | [], _, _, _, _, _ => ⟨trivial, trivial, rfl⟩
  | m :: ms, inherited, hwf, hplain, hs, hsep => by
    obtain ⟨hlegible, hreadable, hread⟩ := WellFormed.readable m hwf.1 hplain.1 hs
    obtain ⟨hlegible', hreadable', hread'⟩ :=
      AllWellFormed.readable ms hwf.2 hplain.2 hs hsep.2
    refine ⟨⟨hlegible, hlegible'⟩, ⟨hreadable, hreadable'⟩, ?_⟩
    rw [nodes, ← hread, ← hread', readAll]
    cases htext : m.isText with
    | false => rfl
    | true => exact readAll_text hwf.1 htext (hsep.1 htext)

end

theorem plain_of_isAside {m : Markup} (hm : m.isAside = true) : m.Plain := by
  cases m with
  | element e children => simp [isAside] at hm
  | _ => trivial

theorem IsAside.readable {m : Markup} (hm : m.IsAside) :
    (m.isAside = true ∧ m.Legible) ∧ m.Readable [] ∧ m.read [] = m.node [] := by
  obtain ⟨hlegible, hread⟩ := WellFormed.readable m hm.2 (plain_of_isAside hm.1) (by simp)
  exact ⟨⟨hm.1, hlegible⟩, hread⟩

theorem nodes_eq_map (inherited : Scope) (ms : List Markup) :
    nodes inherited ms = ms.map (node inherited) := by
  induction ms with
  | nil => rfl
  | cons m ms ih => rw [nodes, ih, List.map_cons]

/-- A well-formed document is accepted, and read as what it stands for. -/
theorem Document.WellFormed.readable {doc : Document} (hwf : doc.WellFormed)
    (hplain : doc.root.Plain) : doc.Legible ∧ doc.Readable ∧ doc.read = doc.nodes := by
  obtain ⟨hlegible, hreadable, hread⟩ := Markup.WellFormed.readable doc.root hwf.root hplain
    (by simp)
  have hprologue := fun m hm => (hwf.prologue m hm).readable
  have hepilogue := fun m hm => (hwf.epilogue m hm).readable
  refine ⟨⟨fun m hm => (hprologue m hm).1, fun m hm => (hepilogue m hm).1, hwf.root_element,
    hlegible⟩, ⟨fun m hm => (hprologue m hm).2.1, hreadable, fun m hm => (hepilogue m hm).2.1⟩, ?_⟩
  rw [Document.read, Document.nodes, nodes_eq_map, nodes_eq_map, hread,
    List.map_congr_left fun m hm => (hprologue m hm).2.2,
    List.map_congr_left fun m hm => (hepilogue m hm).2.2]

end Markup
end GraphFolding
