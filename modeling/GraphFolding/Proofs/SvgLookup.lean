/-
The `svg` element that is asked for, and the one that is found.

A text that can be taken apart is a drawing if some start tag in it is named `svg`, under any
prefix; later on the element is looked for below the root, by the name kept for it:

* `Xml.anyNamed_eq_any_tags` — the first of these tests, in terms of start tags;
* `exists_elementIds_eq` — the elements of a drawing, those outside its root first;
* `Drawing.firstSvg?`, `firstSvg?_eq_or` — the element of the first start tag named `svg`, and the
  one that is found below the root;
* `svgRoot?_run` — folding and preparing do not change which one is found;
* `svgLookup` — when the two agree, and nothing fails for want of an `svg` element;
* `not_forall_findsSvg` — they do not if the element is closed early and another one follows.
-/
import GraphFolding.Proofs.EditRuns
import GraphFolding.Proofs.Supplements
import GraphFolding.Proofs.TableOrder
namespace GraphFolding

open Xml

/-! ### Names of start tags -/

namespace Xml

mutual

theorem Node.hasNamed_eq_any_tags (localName : String) : ∀ x : Node,
    x.hasNamed localName = x.tags.any (·.written.localPart = localName)
  | .element tag children => by
    rw [Node.hasNamed, anyNamed_eq_any_tags, Node.tags, List.any_cons]
  | .text _ => rfl
  | .comment _ => rfl
  | .instruction .. => rfl

/-- As `Node.hasNamed_eq_any_tags`, for several nodes. -/
theorem anyNamed_eq_any_tags (localName : String) : ∀ xs : List Node,
    anyNamed localName xs = (allTags xs).any (·.written.localPart = localName)
  | [] => rfl
  | x :: xs => by
    rw [anyNamed, Node.hasNamed_eq_any_tags, anyNamed_eq_any_tags, allTags, List.any_append]

end

theorem allTags_append (xs ys : List Node) : allTags (xs ++ ys) = allTags xs ++ allTags ys := by
  rw [allTags_eq_flatMap, List.flatMap_append, ← allTags_eq_flatMap, ← allTags_eq_flatMap]

/-- The last of several nodes that is an element. -/
theorem exists_last_element {xs : List Node} (h : allTags xs ≠ []) : ∃ before x after,
    xs = before ++ x :: after ∧ x.isElement = true ∧ ∀ y ∈ after, y.isElement = false := by
  rcases hfind : xs.reverse.find? (·.isElement) with _ | x
  · have hnone := List.find?_eq_none.mp hfind
    exact absurd (allTags_eq_nil fun x hx => by simpa using hnone x (List.mem_reverse.mpr hx)) h
  · obtain ⟨hx, after, before, heq, hafter⟩ := List.find?_eq_some_iff_append.mp hfind
    refine ⟨before.reverse, x, after.reverse, ?_, hx, fun y hy => ?_⟩
    · rw [← List.reverse_inj, heq]
      simp
    · simpa using hafter y (List.mem_reverse.mp hy)

/-- The outermost elements but the last, up to where the last one begins. -/
theorem exists_dropLast_hasNamed_iff {before after : List Node} {x : Node}
    (hx : x.isElement = true) (hafter : ∀ y ∈ after, y.isElement = false) (localName : String) :
    (∃ y ∈ ((before ++ x :: after).filter (·.isElement)).dropLast, y.hasNamed localName = true) ↔
      ∃ tag ∈ allTags before, tag.written.localPart = localName := by
  have hfilter : (before ++ x :: after).filter (·.isElement) =
      before.filter (·.isElement) ++ [x] := by
    have hnone : after.filter (·.isElement) = [] :=
      List.filter_eq_nil_iff.mpr fun y hy => by simp [hafter y hy]
    rw [List.filter_append, List.filter_cons_of_pos hx, hnone]
  have hany := (anyNamed_eq_any localName before).symm.trans
    (anyNamed_eq_any_tags localName before)
  rw [Bool.eq_iff_iff, List.any_eq_true, List.any_eq_true] at hany
  simp only [decide_eq_true_eq] at hany
  rw [hfilter, List.dropLast_concat, ← hany]
  refine exists_congr fun y => ⟨fun h => ⟨List.mem_of_mem_filter h.1, h.2⟩, fun h => ⟨?_, h.2⟩⟩
  exact List.mem_filter.mpr ⟨h.1, isElement_of_hasNamed h.2⟩

end Xml

/-- Two searches in related lists meet related elements. -/
theorem find?_eq_getElem?_findIdx {α β : Type} {R : α → β → Prop} {p : α → Bool} {q : β → Bool}
    {l : List α} {l' : List β} (hl : List.Forall₂ R l l')
    (h : ∀ a, ∀ b ∈ l', R a b → p a = q b) : l.find? p = l[l'.findIdx q]? := by
  induction hl with
  | nil => rfl
  | @cons a b l l' hab hl ih =>
    have hsame := h a b List.mem_cons_self hab
    have hrest := ih fun a b hb => h a b (List.mem_cons_of_mem _ hb)
    rw [List.find?_cons, List.findIdx_cons, hsame]
    cases q b with
    | true => rfl
    | false => exact hrest

namespace Drawing

variable {d : Drawing}

/-! ### Elements outside the root -/

theorem root_foldl_add_rest {after : List Xml.Node} (h : ∀ y ∈ after, y.isElement = false) :
    ∀ o : Outline, (after.foldl Outline.add o).root = o.root := by
  induction after with
  | nil => exact fun _ => rfl
  | cons y after ih =>
    intro o
    have hy := h y List.mem_cons_self
    have hstep : (o.add y).root = o.root := by
      cases y with
      | element tag children => exact absurd hy (by simp [Node.isElement])
      | text value => rfl
      | _ => cases hroot : o.root.isSome <;> simp [Outline.add, Node.isElement, hroot]
    exact (ih (fun z hz => h z (List.mem_cons_of_mem y hz)) _).trans hstep

/-- The last outermost element is the root, and no element lies behind what is below it. -/
theorem elementIds_outline {o : Outline} (hgrowing : GrowingTable o.nodes) {x : Xml.Node}
    (hx : x.isElement = true) {after : List Xml.Node} (hafter : ∀ y ∈ after, y.isElement = false)
    (hd : d.WellLinked) (hnodes : d.nodes = (after.foldl Outline.add (o.add x)).nodes) :
    (after.foldl Outline.add (o.add x)).root = some o.nodes.size ∧ KeptFrom 0 o.nodes d.nodes ∧
      d.elementIds = (List.range' 0 (o.nodes.size - 0)).filter d.isElement ++
        (d.descendants o.nodes.size).filter d.isElement := by
  have hnone : ∀ p, (none : Option NodeId) = some p → HoldsElement o.nodes p := by simp
  obtain ⟨hgrafted, hid⟩ := grafted_graft [] x hgrowing hnone
  have hadd : (o.add x).root = some o.nodes.size ∧ (o.add x).nodes = (graft [] none o.nodes x).1 := by
    cases x with
    | element tag children => exact ⟨congrArg some hid, rfl⟩
    | _ => exact absurd hx (by simp [Node.isElement])
  have hlater := growingTable_outline_add hgrowing x
  obtain ⟨hkept, hsize⟩ := kept_foldl_add after hlater
  have hrest := standsIn_foldl_add hd after hlater fun i _ _ => by rw [hnodes]
  rw [← hnodes, hadd.2] at hkept hsize hrest
  rw [allLineages_eq_nil hafter, List.forall₂_nil_right_iff] at hrest
  have hbelow := descendants_graft hd x [] hgrowing hnone fun i _ hi => hkept i (Nat.zero_le i) hi
  have hsplit := range'_append_sub (Nat.zero_le o.nodes.size) hgrafted.size_le
  have hall := range'_append_sub (Nat.zero_le (graft [] none o.nodes x).1.size) hsize
  refine ⟨(root_foldl_add_rest hafter (o.add x)).trans hadd.1, fun i _ hi => ?_, ?_⟩
  · rw [hkept i (Nat.zero_le i) (Nat.lt_of_lt_of_le hi hgrafted.size_le), hgrafted.kept i hi]
  · rw [elementIds, List.range_eq_range', ← Nat.sub_zero d.nodes.size, ← hall, ← hsplit,
      List.filter_append, hrest, List.append_nil, List.filter_append, hbelow]

/-- The elements of a drawing that was read: first those outside its root, one for each start tag
before the last outermost element, and then those at and below the root. -/
theorem exists_elementIds_eq {xs : List Xml.Node} (h : ofDocument xs = .ok d) :
    ∃ before x after earlier, xs = before ++ x :: after ∧ x.isElement = true ∧
      (∀ y ∈ after, y.isElement = false) ∧
      d.elementIds = earlier ++ (d.descendants d.root).filter d.isElement ∧
      List.Forall₂ d.IsOfTag earlier (allTags before) := by
  have hd := wellLinked_ofDocument h
  have hsvg := (exists_holds_of_ofDocument h).1
  have hnil : allTags xs ≠ [] := by
    intro hnil
    rw [anyNamed_eq_any_tags, hnil] at hsvg
    exact Bool.false_ne_true hsvg
  obtain ⟨before, x, after, rfl, hx, hafter⟩ := exists_last_element hnil
  obtain ⟨root, hroot, hdrawing⟩ := outline_ofDocument h
  rw [List.foldl_append, List.foldl_cons] at hroot hdrawing
  have hgrowing : GrowingTable (before.foldl Outline.add ⟨#[], none, [], []⟩).nodes :=
    growingTable_foldl_add before growingTable_empty
  obtain ⟨hlast, hkept, helements⟩ :=
    elementIds_outline hgrowing hx hafter hd (congrArg Drawing.nodes hdrawing)
  have hd_root : d.root = (before.foldl Outline.add ⟨#[], none, [], []⟩).nodes.size :=
    (congrArg Drawing.root hdrawing).trans (Option.some_inj.mp (hroot.symm.trans hlast))
  have hstands := standsIn_foldl_add hd before (o := ⟨#[], none, [], []⟩) growingTable_empty hkept
  exact ⟨before, x, after, _, rfl, hx, hafter, hd_root ▸ helements, isOfTag_of_standsIn hstands⟩

/-! ### The first `svg` element -/

/-- The element of the first start tag that is named `svg`. -/
def firstSvg? (d : Drawing) (nodes : List Xml.Node) : Option NodeId :=
  d.elementIds[(allTags nodes).findIdx (·.written.localPart = "svg")]?

theorem isNamed_of_isOfTag {id : NodeId} {tag : Tag} {around : Scope} (htag : tag.Sound around)
    (h : d.IsOfTag id tag) (localName : String) :
    d.isNamed localName id = decide (tag.written.localPart = localName) := by
  obtain ⟨inherited, helement⟩ := h
  have hname : (Element.ofTag inherited tag).localName = tag.written.localPart :=
    Scope.localNameOf_storedName tag.scope tag.uri htag.written.2
  rw [isNamed, helement, Option.any_some, hname]

/-- The first element named `svg` lies outside the root, or it is the one that is found. -/
theorem firstSvg?_eq_or {text : String} {nodes : List Xml.Node} (hread : readDocument text = .ok nodes)
    (h : ofDocument nodes = .ok d) :
    ∃ earlier : List NodeId, d.firstSvg? nodes = (earlier.find? (d.isNamed "svg")).or d.svgRoot? ∧
      (∀ id ∈ earlier, id ∉ d.descendants d.root) ∧
      ((earlier.find? (d.isNamed "svg")).isSome ↔
        ∃ x ∈ (nodes.filter (·.isElement)).dropLast, x.hasNamed "svg" = true) := by
  obtain ⟨before, x, after, earlier, rfl, hx, hafter, helements, hearlier⟩ :=
    exists_elementIds_eq h
  have hnamed : ∀ id, ∀ tag ∈ allTags (before ++ x :: after), d.IsOfTag id tag →
      d.isNamed "svg" id = decide (tag.written.localPart = "svg") := by
    intro id tag htag hid
    obtain ⟨around, hsound⟩ := exists_sound_of_mem_allTags hread tag htag
    exact isNamed_of_isOfTag hsound hid "svg"
  have hbelow : d.svgRoot? =
      ((d.descendants d.root).filter d.isElement).find? (d.isNamed "svg") := by
    rw [List.find?_filter, svgRoot?]
    refine congrArg (List.find? · _) (funext fun id => ?_)
    cases hid : d.isNamed "svg" id with
    | true => simp [isElement_of_isNamed hid]
    | false => simp
  refine ⟨earlier, ?_, fun id hid hmem => ?_, ?_⟩
  · rw [firstSvg?, ← find?_eq_getElem?_findIdx (hasTags_ofDocument h) hnamed, helements,
      List.find?_append, hbelow]
  · -- Every element has one place in the table.
    have hnodup : (earlier ++ (d.descendants d.root).filter d.isElement).Nodup :=
      helements ▸ List.nodup_range.filter _
    have helement : d.isElement id = true := by
      have hin : id ∈ d.elementIds := helements ▸ List.mem_append_left _ hid
      exact (List.mem_filter.mp hin).2
    exact (List.nodup_append.mp hnodup).2.2 id hid id (List.mem_filter.mpr ⟨hmem, helement⟩) rfl
  · have hnamed' : ∀ id, ∀ tag ∈ allTags before, d.IsOfTag id tag →
        d.isNamed "svg" id = decide (tag.written.localPart = "svg") := fun id tag htag =>
      hnamed id tag (allTags_append before _ ▸ List.mem_append_left _ htag)
    rw [find?_eq_getElem?_findIdx hearlier hnamed', isSome_getElem?,
      hearlier.length_eq, List.findIdx_lt_length, exists_dropLast_hasNamed_iff hx hafter]
    simp only [decide_eq_true_eq]

theorem isSome_firstSvg? {nodes : List Xml.Node} (h : ofDocument nodes = .ok d) :
    (d.firstSvg? nodes).isSome := by
  have hsvg := (exists_holds_of_ofDocument h).1
  rw [anyNamed_eq_any_tags, List.any_eq_true] at hsvg
  rw [firstSvg?, isSome_getElem?, (hasTags_ofDocument h).length_eq, List.findIdx_lt_length]
  exact hsvg

/-! ### What folding and preparing do to it -/

theorem svgRoot?_congr {d' : Drawing} (h : d'.elementsNamed "svg" = d.elementsNamed "svg") :
    d'.svgRoot? = d.svgRoot? := by
  rw [svgRoot?, ← List.head?_filter, ← elementsNamed, h, elementsNamed, List.head?_filter, svgRoot?]

theorem svgRoot?_of_bare_eq {d' : Drawing} (h : d'.bare = d.bare) : d'.svgRoot? = d.svgRoot? :=
  svgRoot?_congr (by rw [← elementsNamed_bare, h, elementsNamed_bare])

/-- A style and a script are no `svg` elements. -/
theorem svgRoot?_prepare (hd : d.WellLinked) {d' : Drawing} {r : FoldRules} {s : StyleRules}
    {options : PrepareOptions} {w : Wiring} (h : d.prepare r s options = some (d', w)) :
    d'.svgRoot? = d.svgRoot? := by
  obtain ⟨svg, -, hsvg, -, -⟩ := exists_eq_of_prepare h
  obtain ⟨hprepared, -⟩ := hd.prepare h
  obtain ⟨hwell, -⟩ := hd.wire r
  rw [prepare_eq_supplement hd hsvg, Option.some_inj, Prod.mk.injEq] at h
  obtain ⟨rfl, -⟩ := h
  have hsame := elementsNamed_eq (enriched_supplement (d.wire r).1 svg _).toExtended hwell hprepared
    (filter_children_supplement hwell svg _)
    fun id hid => isNamed_supplement_of_new hid (by decide : "svg" ≠ "style") fun _ => by decide
  exact (svgRoot?_congr hsame).trans (svgRoot?_of_bare_eq (bare_wire d r))

end Drawing

/-- Whether a change prepares or folds a drawing. -/
def Edit.IsFolding : Edit → Prop
  | prepare .. => True
  | fold .. => True
  | _ => False

namespace EditState

open Drawing

theorem allowed_of_isFolding {e : Edit} (he : e.IsFolding) (s : EditState) : e.IsAllowed s := by
  cases e with
  | prepare r style options => exact trivial
  | fold r action => exact trivial
  | _ => exact he.elim

theorem svgRoot?_apply {s : EditState} (hs : s.Sound) {e : Edit} (he : e.IsFolding) :
    (e.apply s).drawing.svgRoot? = s.drawing.svgRoot? := by
  cases e with
  | prepare r style options =>
    rcases h : s.drawing.prepare r style options with _ | ⟨d, w⟩
    · simp only [Edit.apply, h]
    · simp only [Edit.apply, h]
      exact svgRoot?_prepare hs.linked h
  | fold r action => exact svgRoot?_of_bare_eq (retouched_apply r s.drawing action).bare
  | _ => exact he.elim

/-- Whatever is prepared and folded, the same `svg` element is found. -/
theorem svgRoot?_run (edits : List Edit) : ∀ {s : EditState}, s.Sound →
    (∀ e ∈ edits, e.IsFolding) → (s.run edits).drawing.svgRoot? = s.drawing.svgRoot? := by
  induction edits with
  | nil => exact fun _ _ => rfl
  | cons e edits ih =>
    intro s hs hedits
    have he := hedits e List.mem_cons_self
    have hrest := ih (hs.apply (allowed_of_isFolding he s)).1
      fun e' he' => hedits e' (List.mem_cons_of_mem e he')
    exact hrest.trans (svgRoot?_apply hs he)

end EditState

namespace Drawing

/-- Whether the first `svg` element of a document is the one found in its drawing, whatever is
prepared and folded before, so that nothing fails for want of one. -/
structure FindsSvg (d : Drawing) (source : String) (nodes : List Xml.Node) : Prop where
  found : ∃ svg, d.firstSvg? nodes = some svg ∧ ∀ edits : List Edit, (∀ e ∈ edits, e.IsFolding) →
    ((EditState.start d).run edits).drawing.svgRoot? = some svg
  prepares : ∀ edits : List Edit, (∀ e ∈ edits, e.IsFolding) → ∀ r s options,
    (((EditState.start d).run edits).drawing.prepare r s options).isSome
  snapshots : ∀ settings names, ∃ final, snapshot source settings names = .ok final

theorem findsSvg_of_svgRoot? {source : String} {nodes : List Xml.Node}
    (h : ofString source = .ok d) {svg : NodeId} (hfirst : d.firstSvg? nodes = some svg)
    (hsvg : d.svgRoot? = some svg) : d.FindsSvg source nodes := by
  have hstart : (EditState.start d).Sound := ⟨wellLinked_ofString h, by simp [EditState.start]⟩
  have hrun : ∀ edits : List Edit, (∀ e ∈ edits, e.IsFolding) →
      ((EditState.start d).run edits).drawing.svgRoot? = some svg := fun edits hedits =>
    (EditState.svgRoot?_run edits hstart hedits).trans hsvg
  refine ⟨⟨svg, hfirst, hrun⟩, fun edits hedits r s options => ?_, fun settings names => ?_⟩
  · rw [prepare, hrun edits hedits]
    rfl
  · rw [snapshot, Snapshot.start_eq h, hsvg]
    exact ⟨_, rfl⟩

theorem ofString_eq_noSvg_iff (source : String) : ofString source = .error .noSvg ↔
    ∃ nodes, readDocument source = .ok nodes ∧
      ∀ tag ∈ allTags nodes, tag.written.localPart ≠ "svg" := by
  rcases hread : readDocument source with e | nodes
  · simp [ofString, hread]
  have hofString : ofString source = ofDocument nodes := by rw [ofString, hread]
  have hnames : (∀ tag ∈ allTags nodes, tag.written.localPart ≠ "svg") ↔
      anyNamed "svg" nodes = false := by
    rw [anyNamed_eq_any_tags, List.any_eq_false]
    simp
  rw [hofString]
  constructor
  · intro h
    refine ⟨nodes, rfl, hnames.mpr ?_⟩
    rw [← Bool.not_eq_true]
    intro hsvg
    -- With such a tag there is an outermost element, and a drawing.
    obtain ⟨root, d, -, hd, -⟩ := holds_ofDocument hsvg
    simp [hd] at h
  · rintro ⟨_, hsame, hnone⟩
    obtain rfl := Except.ok.inj hsame
    rw [ofDocument, hnames.mp hnone]
    rfl

/-- The `svg` element that is asked for and the one that is found.  A text that can be taken apart
is a drawing exactly if some start tag in it is named `svg`.  Then the first such element is found
below the root, and preparing and snapshots never fail for want of it, exactly if no outermost
element but the last is or holds one. -/
theorem svgLookup (source : String) :
    (ofString source = .error .noSvg ↔ ∃ nodes, readDocument source = .ok nodes ∧
      ∀ tag ∈ allTags nodes, tag.written.localPart ≠ "svg") ∧
    ∀ nodes d, readDocument source = .ok nodes → ofString source = .ok d →
      (d.FindsSvg source nodes ↔
        ∀ x ∈ (nodes.filter (·.isElement)).dropLast, x.hasNamed "svg" = false) := by
  refine ⟨ofString_eq_noSvg_iff source, fun nodes d hread h => ?_⟩
  have hdocument : ofDocument nodes = .ok d := by rwa [ofString, hread] at h
  obtain ⟨earlier, hfirst, houtside, hearlier⟩ := firstSvg?_eq_or hread hdocument
  constructor
  · rintro ⟨⟨svg, hsvg, hfound⟩, -, -⟩ x hx
    have hroot : d.svgRoot? = some svg := hfound [] (by simp)
    rw [← Bool.not_eq_true]
    intro hnamed
    obtain ⟨id, hid⟩ := Option.isSome_iff_exists.mp (hearlier.mpr ⟨x, hx, hnamed⟩)
    rw [hid, Option.some_or, hsvg, Option.some_inj] at hfirst
    subst hfirst
    exact houtside svg (List.mem_of_find?_eq_some hid) (List.mem_of_find?_eq_some hroot)
  · intro hnone
    have hfind : earlier.find? (d.isNamed "svg") = none := by
      rw [← Option.not_isSome_iff_eq_none, hearlier]
      rintro ⟨x, hx, hnamed⟩
      rw [hnone x hx] at hnamed
      exact Bool.false_ne_true hnamed
    rw [hfind, Option.none_or] at hfirst
    obtain ⟨svg, hsvg⟩ := Option.isSome_iff_exists.mp (isSome_firstSvg? hdocument)
    exact findsSvg_of_svgRoot? h hsvg (hfirst ▸ hsvg)

theorem exists_readDocument_of_ofString {source : String} (h : ofString source = .ok d) :
    ∃ nodes, readDocument source = .ok nodes := by
  unfold ofString at h
  split at h
  · exact ⟨_, by assumption⟩
  · simp at h

/-- An element that is closed early, and after it an `svg` element with a prefix, in which there is
another one. -/
def prefixedText : String :=
  "<!DOCTYPE b [<!ENTITY e \"<c/></b>\">]><b>&e;<q:svg xmlns:q=\"u\"><svg/></q:svg>"

/-- The first element named `svg` is the root of its drawing, and not the first element. -/
theorem svgLookup_prefixedText : ∃ nodes d, readDocument prefixedText = .ok nodes ∧
    ofString prefixedText = .ok d ∧ (nodes.filter (·.isElement)).length = 2 ∧
    d.FindsSvg prefixedText nodes := by
  have hdrawing : (ofString prefixedText).toOption.isSome := by decide +kernel
  obtain ⟨d, hd⟩ := Option.isSome_iff_exists.mp hdrawing
  have hd := eq_ok_of_toOption hd
  obtain ⟨nodes, hread⟩ := exists_readDocument_of_ofString hd
  have hnodes : (readDocument prefixedText).toOption.map (fun nodes =>
      ((nodes.filter (·.isElement)).length,
        (nodes.filter (·.isElement)).dropLast.any (·.hasNamed "svg"))) = some (2, false) := by
    decide +kernel
  rw [hread] at hnodes
  obtain ⟨hlength, hnone⟩ := Prod.mk.inj (Option.some_inj.mp hnodes)
  rw [List.any_eq_false] at hnone
  exact ⟨nodes, d, hread, hd, hlength,
    ((svgLookup prefixedText).2 nodes d hread hd).mpr (by simpa using hnone)⟩

/-- Not in every drawing that can be read an `svg` element is found. -/
theorem not_forall_findsSvg : ¬∀ source nodes d, readDocument source = .ok nodes →
    ofString source = .ok d → d.FindsSvg source nodes := by
  intro h
  obtain ⟨nodes, hread⟩ := exists_readDocument_of_ofString Snapshot.ofString_rootless
  obtain ⟨svg, -, hfound⟩ := (h _ nodes _ hread Snapshot.ofString_rootless).found
  -- The root is the element that follows the one closed early.
  have hnone : Snapshot.rootless.svgRoot? = none := by decide +kernel
  exact Option.some_ne_none svg ((hfound [] (by simp)).symm.trans hnone)

end Drawing
end GraphFolding
