/-
Reading the tags that were written.

* `Builder.Idle`, `Builder.Changed`, `Builder.Opened` — a builder between two nodes, after a
  change to the nodes, and after a start tag;
* `Builder.startTag_opened`, `Builder.startTag_closed` — a start tag, and the tag of an
  element without children;
* `Builder.endTag_written` — an end tag.
-/
import GraphFolding.Proofs.ReadingAttributes
import GraphFolding.Xml.Content
namespace GraphFolding

open Xml

namespace Xml.Builder

/-! ### Builders between two nodes -/

/-- A builder between two nodes: no tag is at hand. -/
structure Idle (b : Builder) : Prop where
  declared : b.declared = []
  pending : b.pending = []
  latestTag : b.path ≠ [] → b.latestTag.isSome = true

/-- A builder after a change to the nodes at the place where the next node would stand. -/
structure Changed (b : Builder) (change : List Node → List Node) (joins : Bool)
    (b' : Builder) : Prop where
  idle : b'.Idle
  path : b'.path = (b.modifyNodes change).path
  outer : b'.outer = (b.modifyNodes change).outer
  joins : b'.joins = joins

/-- A builder after a start tag whose names have been resolved. -/
structure TagTaken (b b' : Builder) : Prop where
  idle : b'.Idle
  latestTag : b'.latestTag.isSome = true
  path : b'.path = b.path
  outer : b'.outer = b.outer
  joins : b'.joins = false

/-- A builder after the start tag of an element. -/
structure Opened (b : Builder) (tag : Tag) (b' : Builder) : Prop where
  idle : b'.Idle
  path : b'.path = ⟨tag, []⟩ :: b.path
  outer : b'.outer = b.outer
  joins : b'.joins = false

theorem path_modifyNodes_eq_nil (b : Builder) (change : List Node → List Node) :
    (b.modifyNodes change).path = [] ↔ b.path = [] := by
  unfold modifyNodes
  split
  · rfl
  · rename_i h
    simp [h]

theorem Idle.changed_append {b : Builder} (hb : b.Idle) (node : Node) :
    Changed b (node :: ·) false (b.append node) := by
  have hpath := path_modifyNodes_eq_nil b (node :: ·)
  have hidle : (b.append node).declared = b.declared ∧ (b.append node).pending = b.pending ∧
      (b.append node).latestTag = b.latestTag := by
    unfold append modifyNodes
    split <;> exact ⟨rfl, rfl, rfl⟩
  obtain ⟨hdeclared, hpending, htag⟩ := hidle
  refine ⟨⟨hdeclared.trans hb.declared, hpending.trans hb.pending, fun h => ?_⟩, rfl, rfl, rfl⟩
  rw [htag]
  exact hb.latestTag fun h' => h (hpath.mpr h')

theorem modifyNodes_congr {b b' : Builder} (hpath : b'.path = b.path) (houter : b'.outer = b.outer)
    (change : List Node → List Node) :
    (b'.modifyNodes change).path = (b.modifyNodes change).path ∧
      (b'.modifyNodes change).outer = (b.modifyNodes change).outer := by
  unfold modifyNodes
  rw [hpath]
  split
  · exact ⟨rfl, congrArg change houter⟩
  · exact ⟨rfl, houter⟩

theorem modifyNodes_modifyNodes (b : Builder) (f g : List Node → List Node) :
    ((b.modifyNodes f).modifyNodes g).path = (b.modifyNodes fun nodes => g (f nodes)).path ∧
      ((b.modifyNodes f).modifyNodes g).outer =
        (b.modifyNodes fun nodes => g (f nodes)).outer := by
  unfold modifyNodes
  rcases b.path with _ | ⟨e, path⟩
  · simp
  · simp

/-- What is added depends on the nodes there are and on nothing else. -/
theorem Changed.of_eq {b b' b'' : Builder} {f : List Node → List Node} {j : Bool}
    (h : Changed b' f j b'') (hpath : b'.path = b.path) (houter : b'.outer = b.outer) :
    Changed b f j b'' := by
  obtain ⟨hpath', houter'⟩ := modifyNodes_congr hpath houter f
  exact ⟨h.idle, h.path.trans hpath', h.outer.trans houter', h.joins⟩

theorem Changed.trans {b b' b'' : Builder} {f g : List Node → List Node} {j j' : Bool}
    (h : Changed b f j b') (h' : Changed b' g j' b'') :
    Changed b (fun nodes => g (f nodes)) j' b'' := by
  obtain ⟨hpath, houter⟩ := modifyNodes_congr h.path h.outer g
  obtain ⟨hpath', houter'⟩ := modifyNodes_modifyNodes b f g
  exact ⟨h'.idle, h'.path.trans (hpath.trans hpath'), h'.outer.trans (houter.trans houter'),
    h'.joins⟩

theorem Changed.outerScope {b b' : Builder} {f : List Node → List Node} {j : Bool}
    (h : Changed b f j b') : b'.outerScope = b.outerScope := by
  unfold Builder.outerScope
  rw [h.path]
  unfold modifyNodes
  rcases b.path with _ | ⟨e, path⟩
  · simp
  · rfl

end Xml.Builder

/-! ### Start tags as they are written -/

theorem toList_declarationText (b : Binding) :
    (declarationText b).toList = pairChars (b.written, b.uri) := by
  obtain ⟨name, uri⟩ := b
  rcases name with _ | p
  · simp [declarationText, pairChars, Binding.written, QName.text]
  · simp [declarationText, pairChars, Binding.written, QName.text]

theorem toList_attributeText {a : String × String} (ha : IsQName a.1) :
    (attributeText a).toList = pairChars (QName.ofText a.1, a.2) := by
  simp [attributeText, pairChars, ha.2]

/-- The end tag of an element, and what stands after it. -/
def Element.endChars (e : Element) (rest : List Char) : List Char :=
  "</".toList ++ (e.name.toList ++ '>' :: rest)

theorem Element.head?_endChars (e : Element) (rest : List Char) :
    (e.endChars rest).head? = some '<' :=
  rfl

theorem Element.length_lt_endChars (e : Element) (rest : List Char) :
    rest.length < (e.endChars rest).length := by
  simp only [endChars, List.length_append, List.length_cons]
  omega

section Tags

variable {e : Element} (he : e.Legible)

include he in
theorem Element.Legible.toList_startText : e.startText.toList =
    '<' :: ((QName.ofText e.name).text.toList ++ e.pairs.flatMap pairChars) := by
  have hattributes : (e.attributes.map attributeText).flatMap String.toList =
      (e.attributes.map fun a => (QName.ofText a.1, a.2)).flatMap pairChars := by
    rw [List.flatMap_map, List.flatMap_map]
    exact List.flatMap_congr fun a ha => toList_attributeText (he.attributes a ha)
  have hdeclarations : (e.declarations.map declarationText).flatMap String.toList =
      (e.declarations.map fun b => (b.written, b.uri)).flatMap pairChars := by
    rw [List.flatMap_map, List.flatMap_map]
    exact List.flatMap_congr fun b _ => toList_declarationText b
  rw [Element.startText, Element.pairs, List.flatMap_append, ← hattributes, ← hdeclarations,
    he.name.2]
  simp

include he in
theorem Element.Legible.isValid_pairs : ∀ pair ∈ e.pairs, pair.1.IsValid := by
  intro pair hpair
  rcases List.mem_append.mp hpair with hpair | hpair
  · obtain ⟨d, hd, rfl⟩ := List.mem_map.mp hpair
    exact Binding.isValid_written (he.declarations d hd)
  · obtain ⟨a, ha, rfl⟩ := List.mem_map.mp hpair
    exact (he.attributes a ha).1

theorem Element.filter_pairs (e : Element) : e.pairs.filter (fun pair => !pair.1.declares) =
    e.plainAttributes.map fun a => (QName.ofText a.1, a.2) := by
  rw [pairs, List.filter_append, List.filter_eq_nil_iff.mpr, List.nil_append, List.filter_map,
    plainAttributes]
  · rfl
  · intro pair hpair
    obtain ⟨d, -, rfl⟩ := List.mem_map.mp hpair
    simp [Binding.declares_written]

namespace Xml.Builder

theorem length_le_length_flatMap_pairChars (pairs : List (QName × String)) :
    pairs.length ≤ (pairs.flatMap pairChars).length := by
  induction pairs with
  | nil => exact Nat.le_refl 0
  | cons pair pairs ih =>
    rw [List.flatMap_cons, List.length_append, List.length_cons, pairChars, List.length_cons]
    omega

theorem tagRest_opened (b : Builder) (fuel : Nat) (rest : List Char) (place : Position) :
    b.tagRest Expansion.maxLevels (fuel + 1) ⟨place, '>' :: rest⟩ =
      .ok (.opened, b, ⟨place.after '>', rest⟩) :=
  rfl

theorem tagRest_closed (b : Builder) (fuel : Nat) (rest : List Char) (place : Position) :
    b.tagRest Expansion.maxLevels (fuel + 1) ⟨place, '/' :: '>' :: rest⟩ =
      .ok (.closed, b, ⟨(place.after '/').after '>', rest⟩) :=
  rfl

theorem resolveElement_yields (scope : Scope) (q : QName) (place : Position) :
    Yields (∀ p ∈ q.qualifier?, scope.binds (some p) = true) (resolveElement scope q place)
      (.ok (scope.uri? q.qualifier?)) := by
  unfold resolveElement
  rcases hq : q.qualifier? with _ | p
  · exact (Yields.of_eq rfl).congr (by simp)
  · by_cases hbinds : scope.binds (some p) = true
    · obtain ⟨uri, huri, hresolve⟩ := resolvePrefix_of_binds hbinds place
      simp only [hresolve, huri]
      exact (Yields.of_eq rfl).congr (by simp [hbinds])
    · simp only [resolvePrefix_of_not_binds (by simpa using hbinds)]
      exact .of_not (by simp [hbinds]) rfl

section Taken

variable {b : Builder} (hdeclared : b.declared = e.declared)
  (hpending : b.pending.map (fun a => (a.written, a.value)) =
    e.plainAttributes.map fun a => (QName.ofText a.1, a.2))
include hdeclared hpending

/-- The attributes and the scope of a tag, once all that stands in it has been read. -/
theorem takeTag_yields : Yields
    ((∀ a ∈ e.plainAttributes, Element.IsBound (e.readScope b.outerScope) a.1) ∧
      (e.plainAttributes.map (e.readScope b.outerScope).attribute).Pairwise
        fun a b => sameName a b = false)
    b.takeTag (.ok (e.readScope b.outerScope,
      e.plainAttributes.map (e.readScope b.outerScope).attribute,
      { b with joins := false, declared := [], pending := [] })) := by
  have hattributes : Yields _ (resolveAttributes (e.readScope b.outerScope) [] b.pending) _ :=
    (resolveAttributes_yields [] b.pending hpending).congr
      (and_congr_right fun _ => and_iff_right (by simp))
  have hscope : Scope.extend b.declared b.outerScope = e.readScope b.outerScope := by
    rw [hdeclared, Element.readScope]
  rw [takeTag]
  simp only [hscope]
  exact hattributes.bind _

/-- A start tag, once all that stands in it has been read. -/
theorem takeStartTag_yields (place : Position) : Yields (e.Resolvable b.outerScope)
    (b.takeStartTag (QName.ofText e.name) place)
    (.ok (e.readTag b.outerScope, { b with joins := false, declared := [], pending := [] })) := by
  have helement := resolveElement_yields (e.readScope b.outerScope) (QName.ofText e.name) place
  refine (((takeTag_yields hdeclared hpending).bind _).trans (helement.bind _)).congr ?_
  exact ⟨fun h => ⟨h.1.1, h.1.2, h.2⟩, fun h => ⟨⟨h.1, h.2⟩, h.3⟩⟩

theorem startElement_yields (place : Position) : Yields (e.Resolvable b.outerScope)
    (b.startElement (QName.ofText e.name) place)
    (.ok { b with
      joins := false, declared := [], pending := []
      path := ⟨e.readTag b.outerScope, []⟩ :: b.path }) :=
  (takeStartTag_yields hdeclared hpending place).bind _

theorem emptyElement_yields (place : Position) : Yields (e.Resolvable b.outerScope)
    (b.emptyElement (QName.ofText e.name) place)
    (.ok ({ b with joins := false, declared := [], pending := [] }.append
      (.element (e.readTag b.outerScope) []))) :=
  (takeStartTag_yields hdeclared hpending place).bind _

end Taken

include he in
/-- A start tag read up to what ends it. -/
theorem startTag_startText {b : Builder} (hb : b.Idle) {tagEnd : TagEnd} (hcut : tagEnd ≠ .cut)
    {ending rest : List Char} (hstops : StopsAt isNameChar ending)
    (hending : ∀ (b' : Builder) fuel middle, ∃ stop,
      b'.tagRest Expansion.maxLevels (fuel + 1) ⟨middle, ending⟩ =
        .ok (tagEnd, b', ⟨stop, rest⟩)) (place : Position) : ∃ (b' : Builder) (stop : Position),
    TagTaken b b' ∧ Yields (e.Readable b.outerScope)
      (b.startTag Expansion.maxLevels ⟨place, e.startText.toList ++ ending⟩)
      (.ok (tagEnd, if tagEnd = .opened then
          { b' with path := ⟨e.readTag b.outerScope, []⟩ :: b'.path }
        else b'.append (.element (e.readTag b.outerScope) []), ⟨stop, rest⟩)) := by
  have hstops' : StopsAt isNameChar (e.pairs.flatMap pairChars ++ ending) := by
    rcases e.pairs with _ | ⟨pair, pairs⟩
    · exact hstops
    · exact stopsAt_cons (by decide) _
  -- Every pair is written with more than one character, so there are steps for all of them.
  obtain ⟨fuel, hfuel⟩ : ∃ fuel, (e.pairs.flatMap pairChars ++ ending).length + 1 =
      fuel + 1 + e.pairs.length := by
    have hlength := length_le_length_flatMap_pairChars e.pairs
    rw [List.length_append]
    exact ⟨(e.pairs.flatMap pairChars).length - e.pairs.length + ending.length, by omega⟩
  let b₁ : Builder :=
    { b with joins := false, latestTag := some (QName.ofText e.name, place.after '<') }
  obtain ⟨pending, middle, hpending, hpairs⟩ := tagRest_flatMap ending (fuel + 1) b₁
    ((place.after '<').afterAll (QName.ofText e.name).text.toList) he.isValid_pairs
  rw [e.filter_pairs] at hpending
  let b₂ : Builder := { b₁ with declared := e.declared, pending := pending }
  have hb₂ : ({ b₁ with
      declared := b₁.declared ++ e.pairs.filterMap binding?
      pending := b₁.pending ++ pending } : Builder) = b₂ := by
    show ({ b₁ with declared := b.declared ++ _, pending := b.pending ++ pending } : Builder) = b₂
    rw [hb.declared, hb.pending]
    rfl
  obtain ⟨stop, hstop⟩ := hending b₂ fuel middle
  rw [hb₂, hstop] at hpairs
  have hdeclared : b₁.declared = [] := hb.declared
  rw [hdeclared] at hpairs
  have hopened := startElement_yields (e := e) (b := b₂) rfl hpending (place.after '<')
  have hclosed := emptyElement_yields (e := e) (b := b₂) rfl hpending (place.after '<')
  refine ⟨{ b₁ with declared := [], pending := [] }, stop,
    ⟨⟨rfl, rfl, fun _ => rfl⟩, rfl, rfl, rfl, rfl⟩, ?_⟩
  have hbegin : Yields ((QName.ofText e.name).qualifier ≠ "xmlns")
      (b.beginTag (QName.ofText e.name) (place.after '<')) (.ok b₁) :=
    (Yields.of_eq rfl).guard.congr (by simp)
  rw [he.toList_startText, startTag]
  simp only [List.cons_append, List.append_assoc, Cursor.advance,
    Cursor.qualifiedName_append he.name.1 hstops', ok_bind, hfuel]
  refine ((hbegin.bind _).trans ((hpairs.bind _).trans ?_)).congr Element.readable_iff.symm
  cases tagEnd with
  | opened => exact hopened.bind _
  | closed => exact hclosed.bind _
  | cut => exact absurd rfl hcut

include he in
/-- The start tag of an element with children. -/
theorem startTag_opened {b : Builder} (hb : b.Idle) (rest : List Char) (place : Position) :
    ∃ b' stop, Opened b (e.readTag b.outerScope) b' ∧ Yields (e.Readable b.outerScope)
      (b.startTag Expansion.maxLevels ⟨place, e.startText.toList ++ '>' :: rest⟩)
      (.ok (.opened, b', ⟨stop, rest⟩)) := by
  obtain ⟨b', stop, htaken, hread⟩ := startTag_startText he hb
    (TagEnd.noConfusion : TagEnd.opened ≠ .cut) (stopsAt_cons (by decide) rest)
    (fun b' fuel middle => ⟨_, tagRest_opened b' fuel rest middle⟩) place
  refine ⟨{ b' with path := ⟨e.readTag b.outerScope, []⟩ :: b'.path }, stop,
    ⟨⟨htaken.idle.declared, htaken.idle.pending, fun _ => htaken.latestTag⟩, ?_, htaken.outer,
      htaken.joins⟩, hread⟩
  rw [htaken.path]

include he in
/-- The tag of an element without children. -/
theorem startTag_closed {b : Builder} (hb : b.Idle) (rest : List Char) (place : Position) :
    ∃ b' stop, Changed b (.element (e.readTag b.outerScope) [] :: ·) false b' ∧
      Yields (e.Readable b.outerScope)
        (b.startTag Expansion.maxLevels ⟨place, e.startText.toList ++ '/' :: '>' :: rest⟩)
        (.ok (.closed, b', ⟨stop, rest⟩)) := by
  obtain ⟨b', stop, htaken, hread⟩ := startTag_startText he hb
    (TagEnd.noConfusion : TagEnd.closed ≠ .cut) (stopsAt_cons (by decide) ('>' :: rest))
    (fun b' fuel middle => ⟨_, tagRest_closed b' fuel rest middle⟩) place
  have happend := htaken.idle.changed_append (.element (e.readTag b.outerScope) [])
  exact ⟨_, stop, happend.of_eq htaken.path htaken.outer, hread⟩

include he in
/-- The end tag of the innermost element. -/
theorem endTag_written {b : Builder} (hb : b.Idle) {tag : Tag}
    (htag : tag.written = QName.ofText e.name) {children : List Node} {path : List OpenElement}
    (hpath : b.path = ⟨tag, children.reverse⟩ :: path) (rest : List Char) (place : Position) :
    ∃ b' stop, Changed { b with path := path } (.element tag children :: ·) false b' ∧
    b.endTag ⟨place, e.endChars rest⟩ = .ok (b', ⟨stop, rest⟩) := by
  have hstops : StopsAt isNameChar ('>' :: rest) := stopsAt_cons (by decide) _
  have hblanks : StopsAt isBlank ('>' :: rest) := stopsAt_cons (by decide) _
  -- Inside an element some start tag has been read, and the reader remembers it.
  have hlatest : b.latestTag.isNone = false := by
    have := hb.latestTag (by rw [hpath]; simp)
    rw [← Option.not_isSome, this]
    rfl
  have hidle : ({ b with joins := false, declared := [], pending := [], path := path } :
      Builder).Idle := ⟨rfl, rfl, fun _ => hb.latestTag (by rw [hpath]; simp)⟩
  have happend := hidle.changed_append (.element tag children)
  refine ⟨_, (((place.after '<').after '/').afterAll e.name.toList).after '>',
    happend.of_eq rfl rfl, ?_⟩
  have hskip : Cursor.skip 2 ⟨place, e.endChars rest⟩ =
      ⟨(place.after '<').after '/', e.name.toList ++ '>' :: rest⟩ := rfl
  have htext : e.name.toList = (QName.ofText e.name).text.toList := by rw [he.name.2]
  rw [endTag, hskip, htext, Cursor.qualifiedName_append he.name.1 hstops]
  simp only [bind, Except.bind, Cursor.skipBlanks_of_stopsAt _ hblanks, Cursor.expectChar_cons]
  rw [endElement, hlatest, takeTag, hb.pending, hpath]
  simp only [resolveAttributes, bind, Except.bind, pure, Except.pure]
  rw [if_neg (by simp), if_neg (by simp [htag]), List.reverse_reverse]

end Xml.Builder

end Tags
end GraphFolding
