/-
Markup that is written and read again.

* `Markup.runs` — text that stands beside text, joined: it is read as one;
* `Markup.innerText_reread` — what is read of the text in markup is read of its runs;
* `Markup.localName_reread`, `Markup.attributes_reread` — local names and values are read again;
* `Drawing.holds_reread` — a drawing that is read of a written one holds what is read again of the
  markup that the written one held.
-/
import GraphFolding.Proofs.Places
import GraphFolding.Proofs.ReadingDocuments
import GraphFolding.Proofs.StoredNames
namespace GraphFolding

open Xml

namespace Markup

mutual

/-- The runs of text in an element: text that stands beside text, joined. -/
def runs : Markup → List String
  | element _ children => allRuns "" children
  | _ => []

/-- The runs of text in several of them, after text that directly precedes them. -/
def allRuns (pending : String) : List Markup → List String
  | [] => [pending]
  | m :: ms =>
    if m.isText then allRuns (pending ++ m.ownText) ms
    else pending :: (m.runs ++ allRuns "" ms)

end

/-! ### Runs of text -/

mutual

theorem join_runs : ∀ (m : Markup), m.isText = false → String.join m.runs = m.innerText
  | element _ children, _ => by
    rw [runs, join_allRuns children "", innerText]
    exact String.empty_append
  | text _, h => by simp [isText] at h
  | comment _, _ => rfl
  | instruction .., _ => rfl

/-- As `join_runs`, for several of them. -/
theorem join_allRuns : ∀ (ms : List Markup) (pending : String),
    String.join (allRuns pending ms) = pending ++ allText ms
  | [], pending => by
    rw [allRuns, allText, String.join_cons]
    rfl
  | m :: ms, pending => by
    rw [allRuns, allText]
    cases hm : m.isText with
    | true =>
      have hown : m.ownText = m.innerText := by
        cases m <;> simp_all [isText, ownText, innerText]
      rw [if_pos rfl, join_allRuns ms, hown, String.append_assoc]
    | false =>
      rw [if_neg (by simp), String.join_cons, String.join_append, join_runs m hm,
        join_allRuns ms, String.empty_append]

end

theorem ofNodes_eq_map (inherited : Scope) (xs : List Xml.Node) :
    ofNodes inherited xs = xs.map (ofNode inherited) := by
  induction xs with
  | nil => rfl
  | cons x xs ih => rw [ofNodes, ih, List.map_cons]

theorem ofNodes_append (inherited : Scope) (xs ys : List Xml.Node) :
    ofNodes inherited (xs ++ ys) = ofNodes inherited xs ++ ofNodes inherited ys := by
  rw [ofNodes_eq_map, ofNodes_eq_map, ofNodes_eq_map, List.map_append]

theorem allText_append (ms ms' : List Markup) :
    allText (ms ++ ms') = allText ms ++ allText ms' := by
  induction ms with
  | nil => exact String.empty_append.symm
  | cons m ms ih => rw [List.cons_append, allText, ih, allText, String.append_assoc]

theorem allText_textNodes (inherited : Scope) (value : String) :
    allText (ofNodes inherited (textNodes value)) = readText value := by
  unfold textNodes
  split
  · rename_i hempty
    rw [hempty]
    rfl
  · exact String.append_empty

mutual

/-- What is read of the text in markup is read of its runs. -/
theorem innerText_reread (inherited inherited' : Scope) : ∀ (m : Markup), m.isText = false →
    (ofNode inherited (m.read inherited')).innerText = String.join (m.runs.map readText)
  | element e children, _ => by
    rw [read, ofNode, innerText, runs]
    exact allText_reread _ _ children ""
  | text _, h => by simp [isText] at h
  | comment _, _ => rfl
  | instruction .., _ => rfl

/-- As `innerText_reread`, for several of them. -/
theorem allText_reread (inherited inherited' : Scope) : ∀ (ms : List Markup) (pending : String),
    allText (ofNodes inherited (readAll inherited' pending ms)) =
      String.join ((allRuns pending ms).map readText)
  | [], pending => by
    rw [readAll, allText_textNodes, allRuns, List.map_singleton, String.join_cons]
    exact String.append_empty.symm
  | m :: ms, pending => by
    rw [readAll, allRuns]
    cases hm : m.isText with
    | true => rw [if_pos rfl, if_pos rfl, allText_reread inherited inherited' ms]
    | false =>
      rw [if_neg (by simp), if_neg (by simp), ofNodes_append, allText_append, allText_textNodes,
        ofNodes, allText, innerText_reread inherited inherited' m hm,
        allText_reread inherited inherited' ms, List.map_cons, List.map_append, String.join_cons,
        String.join_append]

end

/-! ### Names -/

theorem localName_reread {e : Element} (he : e.Legible) (inherited inherited' : Scope) :
    (Element.ofTag inherited (e.readTag inherited')).localName = e.localName := by
  rw [Element.localName, Element.localName, he.name.localNameOf_eq]
  exact Scope.localNameOf_storedName _ _ he.name.1.2

/-- Attributes that are not taken for declarations keep their local names and values. -/
theorem attributes_reread {e : Element} (he : e.Legible) (inherited inherited' : Scope) :
    ((Element.ofTag inherited (e.readTag inherited')).attributes.map fun a =>
      (Element.localNameOf a.1, a.2)) =
      e.plainAttributes.map fun a => (Element.localNameOf a.1, a.2) := by
  rw [Element.attributes_ofTag, Element.readTag, List.map_map, List.map_map]
  refine List.map_congr_left fun a ha => ?_
  have hname := he.attributes a (List.mem_of_mem_filter ha)
  simp only [Function.comp_apply, Scope.attribute, hname.localNameOf_eq,
    Scope.localNameOf_storedName _ _ hname.1.2]

end Markup

/-! ### Whole drawings -/

namespace Drawing

/-- A drawing read of a written one was accepted, and holds what is read again. -/
theorem holds_reread {d d' : Drawing} {doc : Markup.Document} (hd : d.Holds doc)
    (hdoc : doc.Legible) (h : ofString d.text = .ok d') : doc.Readable ∧
      d'.Holds ⟨Markup.ofNodes [] (doc.prologue.map (Markup.read [])),
        .ofNode [] (doc.root.read []), Markup.ofNodes [] (doc.epilogue.map (Markup.read []))⟩ := by
  have hyields := readDocument_yields hdoc hd.toList_text
  rw [ofString] at h
  cases hread : readDocument d.text with
  | error e => simp [hread] at h
  | ok nodes =>
    rw [hread] at h
    obtain ⟨hreadable, rfl⟩ := hyields.eq_ok_iff.mp hread
    obtain ⟨-, root, hroot, hholds⟩ := exists_holds_of_ofDocument h
    obtain ⟨e, children, helement⟩ := Markup.exists_eq_element hdoc.root_element
    have hasides : ∀ {ms : List Markup}, (∀ m ∈ ms, m.isAside = true ∧ m.Legible) →
        ∀ x ∈ ms.map (Markup.read []), Markup.Sketch.isAside x = true := by
      intro ms hms x hx
      obtain ⟨m, hm, rfl⟩ := List.mem_map.mp hx
      have haside := (hms m hm).1
      cases m with
      | element e children => simp [Markup.isAside] at haside
      | text value => simp [Markup.isAside] at haside
      | comment value => rfl
      | instruction target value => rfl
    have hsketch := Markup.Sketch.ofNodes_append (hasides hdoc.prologue) (hasides hdoc.epilogue)
      (e.readTag []) (Markup.readAll (e.readScope []) "" children)
    rw [Markup.Document.read, helement, Markup.read, hsketch] at hroot hholds
    obtain rfl := Option.some_inj.mp hroot
    rw [helement, Markup.read]
    exact ⟨hreadable, hholds⟩

end Drawing
end GraphFolding
