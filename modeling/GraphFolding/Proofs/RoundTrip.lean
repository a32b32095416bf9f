/-
Reading undoes writing.

* `Markup.ofNode_node` — well-formed markup is what its node is as markup;
* `Markup.Document.WellFormed.sketch_nodes` — so is a well-formed document;
* `Drawing.ofString_text` — a written drawing is read back: as a drawing that holds the same
  document.
-/
import GraphFolding.Proofs.HeldDocuments
import GraphFolding.Proofs.ReadingDocuments
namespace GraphFolding

open Xml (Scope)

mutual

/-- The node of markup holds the elements that the markup holds. -/
theorem hasNamed_node (localName : String) : ∀ (m : Markup) {inherited : Scope},
    m.WellFormed inherited → (m.node inherited).hasNamed localName = m.hasNamed localName
  | .element e children, inherited, hwf => by
    obtain ⟨he, -, hall⟩ := hwf
    have hchildren := anyNamed_nodes localName children hall
    have hname : (e.tag inherited).written.localPart = e.localName :=
      he.name.1.localNameOf_eq.symm
    rw [Markup.node, Xml.Node.hasNamed, hchildren, hname, Markup.hasNamed]
  | .text _, _, _ => rfl
  | .comment _, _, _ => rfl
  | .instruction .., _, _ => rfl

/-- As `hasNamed_node`, for several of them. -/
theorem anyNamed_nodes (localName : String) : ∀ (ms : List Markup) {inherited : Scope},
    Markup.AllWellFormed inherited ms →
    Xml.anyNamed localName (Markup.nodes inherited ms) = Markup.anyNamed localName ms
  | [], _, _ => rfl
  | m :: ms, inherited, hwf => by
    rw [Markup.nodes, Xml.anyNamed, hasNamed_node localName m hwf.1,
      anyNamed_nodes localName ms hwf.2, Markup.anyNamed]

end

namespace Markup

mutual

/-- Well-formed markup is what its node is as markup. -/
theorem ofNode_node : ∀ (m : Markup) {inherited : Scope}, m.WellFormed inherited → m.Plain →
    (∀ b ∈ inherited, b.WellFormed) → ofNode inherited (m.node inherited) = m
  | .element e children, inherited, hwf, hplain, hs => by
    obtain ⟨he, -, hall⟩ := hwf
    have hchildren := ofNodes_nodes children hall hplain.2 (he.scope_sound hs).wellFormed
    rw [node, ofNode, Element.ofTag_tag he hplain.1 hs]
    exact congrArg (element e) hchildren
  | .text _, _, _, _, _ => rfl
  | .comment _, _, _, _, _ => rfl
  | .instruction .., _, _, _, _ => rfl

/-- As `ofNode_node`, for several of them. -/
theorem ofNodes_nodes : ∀ (ms : List Markup) {inherited : Scope}, AllWellFormed inherited ms →
    AllPlain ms → (∀ b ∈ inherited, b.WellFormed) → ofNodes inherited (nodes inherited ms) = ms
  | [], _, _, _, _ => rfl
  | m :: ms, inherited, hwf, hplain, hs => by
    rw [nodes, ofNodes, ofNode_node m hwf.1 hplain.1 hs, ofNodes_nodes ms hwf.2 hplain.2 hs]

end

/-- Well-formed comments and instructions, as nodes and back. -/
theorem ofNodes_asides {ms : List Markup} (hms : ∀ m ∈ ms, m.IsAside) :
    (∀ x ∈ nodes [] ms, Sketch.isAside x = true) ∧ ofNodes [] (nodes [] ms) = ms := by
  induction ms with
  | nil => exact ⟨by simp [nodes], rfl⟩
  | cons m ms ih =>
    obtain ⟨haside, hwf⟩ := hms m List.mem_cons_self
    obtain ⟨hall, hback⟩ := ih fun n hn => hms n (List.mem_cons_of_mem m hn)
    rw [nodes, ofNodes, hback, ofNode_node m hwf (plain_of_isAside haside) (by simp)]
    refine ⟨?_, rfl⟩
    simp only [List.mem_cons, forall_eq_or_imp]
    refine ⟨?_, hall⟩
    cases m with
    | element e children => simp [isAside] at haside
    | text value => simp [isAside] at haside
    | comment value => rfl
    | instruction target value => rfl

namespace Document.WellFormed

variable {doc : Document} (hwf : doc.WellFormed)
include hwf

theorem anyNamed_nodes : Xml.anyNamed "svg" doc.nodes = true := by
  have hroot := (hasNamed_node "svg" doc.root hwf.root).trans hwf.hasSvg
  rw [Document.nodes, Xml.anyNamed_eq_any]
  simp [hroot]

/-- The nodes of a well-formed document are a document, namely that one. -/
theorem sketch_nodes (hplain : doc.root.Plain) :
    Sketch.ofNodes doc.nodes = ⟨doc.prologue, some doc.root, doc.epilogue⟩ := by
  obtain ⟨e, children, hroot⟩ := exists_eq_element hwf.root_element
  obtain ⟨hbefore, hprologue⟩ := ofNodes_asides hwf.prologue
  obtain ⟨hafter, hepilogue⟩ := ofNodes_asides hwf.epilogue
  have helement := ofNode_node doc.root hwf.root hplain (by simp)
  rw [hroot, node] at helement
  rw [Document.nodes, hroot, node, Sketch.ofNodes_append hbefore hafter, hprologue, hepilogue,
    helement]

end Document.WellFormed
end Markup

namespace Drawing

/-- A written drawing is read back, as a drawing that holds the same document. -/
theorem ofString_text {d : Drawing} {doc : Markup.Document} (hd : d.Holds doc)
    (hwf : doc.WellFormed) (hplain : doc.root.Plain) :
    ∃ d', ofString d.text = .ok d' ∧ d'.Holds doc := by
  obtain ⟨root, d', hroot, hread, hholds⟩ := holds_ofDocument hwf.anyNamed_nodes
  rw [hwf.sketch_nodes hplain] at hroot hholds
  obtain rfl : doc.root = root := Option.some_inj.mp hroot
  refine ⟨d', ?_, hholds⟩
  rw [ofString, readDocument_written hwf hplain hd.toList_text]
  exact hread

/-- A document with a namespace, references to be made, an instruction before the element, and
comments inside and after it. -/
def annotated : Markup.Document where
  prologue := [.instruction "xml-stylesheet" (some "href=\"a.css\"")]
  root := .element ⟨"svg", [⟨none, "s"⟩, ⟨some "x", "l"⟩], [("class", "a\tb")]⟩
    [.text "1 < 2 & 3", .element ⟨"a", [], [("x:href", "\"m\""), ("xml:space", "preserve")]⟩ [],
      .comment "-note", .text "]]>"]
  epilogue := [.comment "end"]

/-- A drawing of that document. -/
def annotatedDrawing : Drawing where
  nodes := #[⟨.instruction "xml-stylesheet" (some "href=\"a.css\""), none, []⟩,
    ⟨.element ⟨"svg", [⟨none, "s"⟩, ⟨some "x", "l"⟩], [("class", "a\tb")]⟩, none, [2, 3, 4, 5]⟩,
    ⟨.text "1 < 2 & 3", some 1, []⟩,
    ⟨.element ⟨"a", [], [("x:href", "\"m\""), ("xml:space", "preserve")]⟩, some 1, []⟩,
    ⟨.comment "-note", some 1, []⟩, ⟨.text "]]>", some 1, []⟩, ⟨.comment "end", none, []⟩]
  root := 1
  prologue := [0]
  epilogue := [6]

theorem holds_annotated : annotatedDrawing.Holds annotated where
  prologue := ⟨0, [], rfl, rfl, rfl⟩
  root := ⟨[2, 3, 4, 5], rfl, 2, _, rfl, rfl, 3, _, rfl, ⟨[], rfl, rfl⟩, 4, _, rfl, rfl, 5, _, rfl,
    rfl, rfl⟩
  epilogue := ⟨6, [], rfl, rfl, rfl⟩

theorem ofString_text_annotated :
    annotatedDrawing.Holds annotated ∧ annotated.WellFormed ∧ annotated.root.Plain ∧
      ∃ d', ofString annotatedDrawing.text = .ok d' ∧ d'.Holds annotated := by
  have hwf : annotated.WellFormed := by decide +kernel
  have hplain : annotated.root.Plain := by decide +kernel
  exact ⟨holds_annotated, hwf, hplain, ofString_text holds_annotated hwf hplain⟩

/-! ### Names that are not read back -/

/-- A drawing of one element. -/
def single (e : Element) : Drawing := ⟨#[⟨.element e, none, []⟩], 0, [], []⟩

/-- An element that alone is a well-formed document, and is not read back. -/
def Misread (e : Element) : Prop :=
  (single e).Holds ⟨[], .element e [], []⟩ ∧
    Markup.Document.WellFormed ⟨[], .element e [], []⟩ ∧
    ¬∃ d', ofString (single e).text = .ok d' ∧ d'.Holds ⟨[], .element e [], []⟩

theorem misread_of_content_ne {e : Element}
    (hwf : Markup.Document.WellFormed ⟨[], .element e [], []⟩)
    (hne : ((ofString (single e).text).toOption.bind fun d => d.element? d.root) ≠ some e) :
    Misread e := by
  refine ⟨⟨rfl, ⟨[], rfl, rfl⟩, rfl⟩, hwf, ?_⟩
  rintro ⟨d', hread, hholds⟩
  obtain ⟨ids, hnode, -⟩ := hholds.root
  refine hne ?_
  rw [hread]
  simp [Except.toOption, element?, hnode]

/-- An attribute called `xmlns` under a prefix is read as a declaration, an element under the
prefix `xml` is not read at all, and neither is the declaration of a prefix that is no name. -/
theorem misread_names : Misread ⟨"svg", [⟨some "p", "u"⟩], [("p:xmlns", "v")]⟩ ∧
    Misread ⟨"xml:svg", [], []⟩ ∧ Misread ⟨"svg", [⟨some "1", "u"⟩], []⟩ :=
  ⟨misread_of_content_ne (by decide +kernel) (by decide +kernel),
    misread_of_content_ne (by decide +kernel) (by decide +kernel),
    misread_of_content_ne (by decide +kernel) (by decide +kernel)⟩

end Drawing
end GraphFolding
