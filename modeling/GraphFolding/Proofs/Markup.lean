/-
Markup: the nodes of a drawing as a tree, without their places in the table.

* `Markup`, `Markup.chars` — a node with all that stands in it, and how it is written;
* `Markup.WellFormed` — the markup that a document may hold: names whose prefixes are bound,
  allowed characters, no text beside text;
* `Markup.Plain` — markup without the few names that are well formed and still cannot be
  read: elements under `xml`, attributes with the local name `xmlns`, and prefixes that are
  no names;
* `Element.tag`, `Markup.node` — the document node that markup is read as;
* `Markup.Document` — an element with the comments and instructions around it.
-/
import GraphFolding.Drawing.Writer
import GraphFolding.Drawing.OfDocument
import GraphFolding.Proofs.Reading
namespace GraphFolding

/-- A node of a drawing with all that stands in it. -/
inductive Markup where
  | element (e : Element) (children : List Markup)
  | text (value : String)
  | comment (value : String)
  | instruction (target : String) (value : Option String)
  deriving Repr

/-- A qualified name taken apart at its first colon. -/
def Xml.QName.ofText (s : String) : QName :=
  match s.toList.dropWhile (· ≠ ':') with
  | [] => ⟨"", s⟩
  | _ :: rest => ⟨String.ofList (s.toList.takeWhile (· ≠ ':')), String.ofList rest⟩

/-- A name, or two of them joined by a colon. -/
def Xml.IsQName (s : String) : Prop :=
  (QName.ofText s).IsValid ∧ (QName.ofText s).text = s

instance (s : String) : Decidable (Xml.IsQName s) := inferInstanceAs (Decidable (_ ∧ _))

/-- Characters that a document may hold. -/
def Xml.IsAllowedText (s : String) : Prop := ∀ c ∈ s.toList, isAllowed c = true

instance (s : String) : Decidable (Xml.IsAllowedText s) :=
  decidable_of_iff (s.toList.all Xml.isAllowed = true) (by simp [Xml.IsAllowedText])

open Xml (QName IsQName IsName IsNamePart IsAllowedText Scope Binding)

/-! ### Well-formed markup -/

/-- A declaration of a namespace that is not one of the reserved ones; prefixes stand for
something. -/
structure Xml.Binding.WellFormed (b : Binding) : Prop where
  name_allowed : ∀ p ∈ b.name, IsAllowedText p
  uri_allowed : IsAllowedText b.uri
  ne_xml : b.name ≠ some "xml"
  ne_xmlns : b.name ≠ some "xmlns"
  uri_ne_xml : b.uri ≠ Scope.xmlUri
  uri_ne_xmlns : b.uri ≠ Scope.xmlnsUri
  uri_ne_empty : b.name ≠ none → b.uri ≠ ""

instance (b : Binding) : Decidable b.WellFormed :=
  decidable_of_iff ((∀ p ∈ b.name, IsAllowedText p) ∧ IsAllowedText b.uri ∧ b.name ≠ some "xml" ∧
      b.name ≠ some "xmlns" ∧ b.uri ≠ Scope.xmlUri ∧ b.uri ≠ Scope.xmlnsUri ∧
      (b.name ≠ none → b.uri ≠ ""))
    ⟨fun ⟨h₁, h₂, h₃, h₄, h₅, h₆, h₇⟩ => ⟨h₁, h₂, h₃, h₄, h₅, h₆, h₇⟩,
      fun ⟨h₁, h₂, h₃, h₄, h₅, h₆, h₇⟩ => ⟨h₁, h₂, h₃, h₄, h₅, h₆, h₇⟩⟩

namespace Element

/-- The bindings in force at an element. -/
def scope (e : Element) (inherited : Scope) : Scope := Scope.extend e.declarations inherited

/-- Whether the prefix of a name, if it has one, is bound. -/
def IsBound (scope : Scope) (name : String) : Prop :=
  ∀ p ∈ (QName.ofText name).qualifier?, p = "xml" ∨ scope.binds (some p) = true

instance (scope : Scope) (name : String) : Decidable (IsBound scope name) :=
  inferInstanceAs (Decidable (∀ p ∈ (QName.ofText name).qualifier?, _))

/-- An element whose names are bound and different, and whose declarations are new ones. -/
structure WellFormed (e : Element) (inherited : Scope) : Prop where
  name : IsQName e.name ∧ IsBound (e.scope inherited) e.name
  attributes : ∀ a ∈ e.attributes, IsQName a.1 ∧ IsBound (e.scope inherited) a.1 ∧
    a.1 ≠ "xmlns" ∧ (QName.ofText a.1).qualifier ≠ "xmlns" ∧ IsAllowedText a.2
  attributes_nodup : (e.attributes.map (·.1)).Nodup
  declarations : ∀ b ∈ e.declarations, b.WellFormed ∧ b ∉ inherited
  prefixes_nodup : (e.declarations.filterMap (·.name)).Nodup
  uris_nodup : ((e.scope inherited).map (·.uri)).Nodup

instance (e : Element) (inherited : Scope) : Decidable (e.WellFormed inherited) :=
  decidable_of_iff ((IsQName e.name ∧ IsBound (e.scope inherited) e.name) ∧
      (∀ a ∈ e.attributes, IsQName a.1 ∧ IsBound (e.scope inherited) a.1 ∧
        a.1 ≠ "xmlns" ∧ (QName.ofText a.1).qualifier ≠ "xmlns" ∧ IsAllowedText a.2) ∧
      (e.attributes.map (·.1)).Nodup ∧ (∀ b ∈ e.declarations, b.WellFormed ∧ b ∉ inherited) ∧
      (e.declarations.filterMap (·.name)).Nodup ∧ ((e.scope inherited).map (·.uri)).Nodup)
    ⟨fun ⟨h₁, h₂, h₃, h₄, h₅, h₆⟩ => ⟨h₁, h₂, h₃, h₄, h₅, h₆⟩,
      fun ⟨h₁, h₂, h₃, h₄, h₅, h₆⟩ => ⟨h₁, h₂, h₃, h₄, h₅, h₆⟩⟩

/-- An element without the names that are well formed and still cannot be read. -/
structure Plain (e : Element) : Prop where
  name : (QName.ofText e.name).qualifier ≠ "xml"
  attributes : ∀ a ∈ e.attributes, (QName.ofText a.1).localPart ≠ "xmlns"
  declarations : ∀ b ∈ e.declarations, ∀ p ∈ b.name, IsNamePart p

instance (e : Element) : Decidable e.Plain :=
  decidable_of_iff ((QName.ofText e.name).qualifier ≠ "xml" ∧
      (∀ a ∈ e.attributes, (QName.ofText a.1).localPart ≠ "xmlns") ∧
      ∀ b ∈ e.declarations, ∀ p ∈ b.name, IsNamePart p)
    ⟨fun ⟨h₁, h₂, h₃⟩ => ⟨h₁, h₂, h₃⟩, fun ⟨h₁, h₂, h₃⟩ => ⟨h₁, h₂, h₃⟩⟩

end Element

namespace Markup

/-- Whether markup is text. -/
def isText : Markup → Bool
  | text _ => true
  | _ => false

/-- Whether markup is a comment or an instruction. -/
def isAside : Markup → Bool
  | comment _ => true
  | instruction .. => true
  | _ => false

/-- Whether markup is an element. -/
def isElement : Markup → Bool
  | element .. => true
  | _ => false

theorem exists_eq_element {m : Markup} (h : m.isElement = true) :
    ∃ e children, m = element e children := by
  cases m with
  | element e children => exact ⟨e, children, rfl⟩
  | text value => simp [isElement] at h
  | comment value => simp [isElement] at h
  | instruction target value => simp [isElement] at h

/-- No text stands beside text. -/
def Separated : List Markup → Prop
  | [] => True
  | m :: rest => (m.isText = true → ∀ n ∈ rest.head?, n.isText = false) ∧ Separated rest

instance decidableSeparated : (ms : List Markup) → Decidable (Separated ms)
  | [] => isTrue trivial
  | m :: rest =>
    have := decidableSeparated rest
    inferInstanceAs (Decidable ((m.isText = true → ∀ n ∈ rest.head?, n.isText = false) ∧ _))

/-- Well-formed text, which is not empty and holds no carriage return. -/
def TextWellFormed (value : String) : Prop :=
  value ≠ "" ∧ IsAllowedText value ∧ '\r' ∉ value.toList

instance (value : String) : Decidable (TextWellFormed value) :=
  inferInstanceAs (Decidable (_ ∧ _ ∧ _))

/-- The text of a well-formed comment holds no two hyphens in a row and does not end in one. -/
def CommentWellFormed (value : String) : Prop :=
  IsAllowedText value ∧ ¬['-', '-'] <:+: value.toList ∧ value.toList.getLast? ≠ some '-'

instance (value : String) : Decidable (CommentWellFormed value) :=
  inferInstanceAs (Decidable (_ ∧ _ ∧ _))

/-- A well-formed instruction; its value is none, or neither empty nor led by a blank. -/
def InstructionWellFormed (target : String) (value : Option String) : Prop :=
  IsName target ∧ target ≠ "xml" ∧ ∀ v ∈ value, IsAllowedText v ∧ v ≠ "" ∧
    v.toList.head?.all (!Xml.isBlank ·) = true ∧ ¬['?', '>'] <:+: v.toList

instance (target : String) (value : Option String) :
    Decidable (InstructionWellFormed target value) :=
  inferInstanceAs (Decidable (_ ∧ _ ∧ ∀ v ∈ value, _))

mutual

/-- Well-formed markup, in a scope inherited from around it. -/
def WellFormed (inherited : Scope) : Markup → Prop
  | element e children => e.WellFormed inherited ∧
      Separated children ∧ AllWellFormed (e.scope inherited) children
  | text value => TextWellFormed value
  | comment value => CommentWellFormed value
  | instruction target value => InstructionWellFormed target value

/-- As `WellFormed`, for several of them. -/
def AllWellFormed (inherited : Scope) : List Markup → Prop
  | [] => True
  | m :: rest => m.WellFormed inherited ∧ AllWellFormed inherited rest

end

mutual

instance decidableWellFormed (inherited : Scope) :
    (m : Markup) → Decidable (m.WellFormed inherited)
  | element e children =>
    have := decidableAllWellFormed (e.scope inherited) children
    inferInstanceAs (Decidable (_ ∧ _ ∧ _))
  | text value => inferInstanceAs (Decidable (TextWellFormed value))
  | comment value => inferInstanceAs (Decidable (CommentWellFormed value))
  | instruction target value => inferInstanceAs (Decidable (InstructionWellFormed target value))

instance decidableAllWellFormed (inherited : Scope) :
    (ms : List Markup) → Decidable (AllWellFormed inherited ms)
  | [] => isTrue trivial
  | m :: rest =>
    have := decidableWellFormed inherited m
    have := decidableAllWellFormed inherited rest
    inferInstanceAs (Decidable (_ ∧ _))

end

mutual

/-- Markup without the names that are well formed and still cannot be read. -/
def Plain : Markup → Prop
  | element e children => e.Plain ∧ AllPlain children
  | _ => True

/-- As `Plain`, for several of them. -/
def AllPlain : List Markup → Prop
  | [] => True
  | m :: rest => m.Plain ∧ AllPlain rest

end

mutual

instance decidablePlain : (m : Markup) → Decidable m.Plain
  | element _ children =>
    have := decidableAllPlain children
    inferInstanceAs (Decidable (_ ∧ _))
  | text _ => isTrue trivial
  | comment _ => isTrue trivial
  | instruction .. => isTrue trivial

instance decidableAllPlain : (ms : List Markup) → Decidable (AllPlain ms)
  | [] => isTrue trivial
  | m :: rest =>
    have := decidablePlain m
    have := decidableAllPlain rest
    inferInstanceAs (Decidable (_ ∧ _))

end

mutual

/-- Whether markup is or holds an element with a local name. -/
def hasNamed (localName : String) : Markup → Bool
  | element e children => e.localName = localName || anyNamed localName children
  | _ => false

/-- As `hasNamed`, for one of several of them. -/
def anyNamed (localName : String) : List Markup → Bool
  | [] => false
  | m :: rest => m.hasNamed localName || anyNamed localName rest

end

/-! ### Writing and reading -/

mutual

/-- How markup is written. -/
def chars : Markup → List Char
  | element e children =>
    if children.isEmpty then e.startText.toList ++ "/>".toList
    else e.startText.toList ++ ['>'] ++ allChars children ++ "</".toList ++ e.name.toList ++ ['>']
  | text value => (Xml.escapeText value).toList
  | comment value => "<!--".toList ++ value.toList ++ "-->".toList
  | instruction target none => "<?".toList ++ target.toList ++ "?>".toList
  | instruction target (some value) =>
    "<?".toList ++ target.toList ++ [' '] ++ value.toList ++ "?>".toList

/-- How several of them are written, one after the other. -/
def allChars : List Markup → List Char
  | [] => []
  | m :: rest => m.chars ++ allChars rest

end

end Markup

/-- The namespace of an attribute. -/
def Xml.Scope.attributeUri (scope : Scope) (q : QName) : Option String :=
  match q.qualifier? with
  | none => none
  | some p => if p = "xml" then some Scope.xmlUri else scope.uri? (some p)

/-- An attribute with its namespace. -/
def Xml.Scope.attribute (scope : Scope) (a : String × String) : Xml.Attribute :=
  ⟨QName.ofText a.1, scope.attributeUri (QName.ofText a.1), a.2⟩

/-- The start tag that an element is read as. -/
def Element.tag (inherited : Scope) (e : Element) : Xml.Tag where
  written := QName.ofText e.name
  uri := (e.scope inherited).uri? (QName.ofText e.name).qualifier?
  scope := e.scope inherited
  attributes := e.attributes.map (e.scope inherited).attribute

namespace Markup

mutual

/-- The document node that markup is read as. -/
def node (inherited : Scope) : Markup → Xml.Node
  | element e children => .element (e.tag inherited) (nodes (e.scope inherited) children)
  | text value => .text value
  | comment value => .comment value
  | instruction target value => .instruction target value

/-- As `node`, for several of them. -/
def nodes (inherited : Scope) : List Markup → List Xml.Node
  | [] => []
  | m :: rest => m.node inherited :: nodes inherited rest

end

/-! ### Whole documents -/

/-- An element, and the comments and instructions around it. -/
structure Document where
  prologue : List Markup
  root : Markup
  epilogue : List Markup

/-- A comment or an instruction that a document may hold outside its element. -/
def IsAside (m : Markup) : Prop := m.isAside = true ∧ m.WellFormed []

instance (m : Markup) : Decidable m.IsAside := inferInstanceAs (Decidable (_ ∧ _))

/-- Comments and instructions, each on a line of its own. -/
def lineChars (ms : List Markup) : List Char := ms.flatMap fun m => m.chars ++ ['\n']

namespace Document

/-- A document around a well-formed element, in which there is a drawing. -/
structure WellFormed (doc : Document) : Prop where
  prologue : ∀ m ∈ doc.prologue, m.IsAside
  epilogue : ∀ m ∈ doc.epilogue, m.IsAside
  root_element : doc.root.isElement = true
  root : doc.root.WellFormed []
  hasSvg : doc.root.hasNamed "svg" = true

instance (doc : Document) : Decidable doc.WellFormed :=
  decidable_of_iff ((∀ m ∈ doc.prologue, m.IsAside) ∧ (∀ m ∈ doc.epilogue, m.IsAside) ∧
      doc.root.isElement = true ∧ doc.root.WellFormed [] ∧ doc.root.hasNamed "svg" = true)
    ⟨fun ⟨h₁, h₂, h₃, h₄, h₅⟩ => ⟨h₁, h₂, h₃, h₄, h₅⟩,
      fun ⟨h₁, h₂, h₃, h₄, h₅⟩ => ⟨h₁, h₂, h₃, h₄, h₅⟩⟩

/-- How a document is written. -/
def chars (doc : Document) : List Char :=
  Drawing.header.toList ++ (lineChars doc.prologue ++
    (doc.root.chars ++ '\n' :: lineChars doc.epilogue))

/-- The nodes that a document is read as. -/
def nodes (doc : Document) : List Xml.Node :=
  Markup.nodes [] doc.prologue ++ doc.root.node [] :: Markup.nodes [] doc.epilogue

end Document
end Markup
end GraphFolding
