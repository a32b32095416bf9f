/-
The stylesheet of a prepared drawing: two new nodes, and nothing else is touched.

* `getElem?_injectStyle` — the table with a stylesheet in it, entry by entry;
* `anchors_injectStyle` — the links are the same, in the same order;
* `wired_injectStyle` — a wired drawing with a stylesheet still fits its wiring;
* `wired_start` — the drawing of a snapshot fits its wiring before it is clicked.
-/
import GraphFolding.Folding.Snapshot
import GraphFolding.Proofs.DocumentOrder
import GraphFolding.Proofs.WiringEffect
namespace GraphFolding.Drawing

variable {d : Drawing}

/-- The table with a stylesheet: the style and its text are the last two entries, and the
style is the first child of the element it was put into. -/
theorem getElem?_injectStyle {css : String} (hcss : d.hasStyle css = false) {svg : NodeId}
    (hsvg : svg < d.nodes.size) (i : NodeId) :
    (d.injectStyle svg css).nodes[i]? =
      if i = d.nodes.size + 1 then some ⟨.text css, some d.nodes.size, []⟩
      else if i = d.nodes.size then
        some ⟨.element ⟨"style", [], [("type", "text/css")]⟩, some svg, [d.nodes.size + 1]⟩
      else if i = svg then
        d.nodes[i]?.map fun node => { node with children := d.nodes.size :: node.children }
      else d.nodes[i]? := by
  have hne : svg ≠ d.nodes.size := Nat.ne_of_lt hsvg
  rw [injectStyle, if_neg (by simp [hcss])]
  simp only [createElement, pushNode, appendText, modifyChildren, insertChild, modifyNode,
    Array.getElem?_modify, Array.getElem?_push, Array.size_push, List.take_zero, List.drop_zero,
    List.nil_append]
  by_cases h₁ : i = d.nodes.size + 1
  · subst h₁
    have hsvg' : svg ≠ d.nodes.size + 1 := Nat.ne_of_lt (Nat.lt_succ_of_lt hsvg)
    simp [hsvg']
  by_cases h₂ : i = d.nodes.size
  · subst h₂
    simp [hne]
  by_cases h₃ : i = svg
  · subst h₃
    simp [h₁, h₂, Ne.symm h₂]
  · simp [h₁, h₂, h₃, Ne.symm h₂, Ne.symm h₃]

section Inserted

variable {css : String} (hcss : d.hasStyle css = false) {svg : NodeId}
  (hsvg : svg < d.nodes.size)
include hcss hsvg

omit hsvg in
theorem size_injectStyle : (d.injectStyle svg css).nodes.size = d.nodes.size + 2 := by
  rw [injectStyle, if_neg (by simp [hcss])]
  simp [createElement, pushNode, appendText, modifyChildren, insertChild, modifyNode]

theorem children_injectStyle (i : NodeId) :
    (d.injectStyle svg css).children i =
      if i = d.nodes.size + 1 then []
      else if i = d.nodes.size then [d.nodes.size + 1]
      else if i = svg then d.nodes.size :: d.children i
      else d.children i := by
  unfold children
  rw [getElem?_injectStyle hcss hsvg]
  by_cases h₁ : i = d.nodes.size + 1
  · simp only [if_pos h₁]
  by_cases h₂ : i = d.nodes.size
  · simp only [if_neg h₁, if_pos h₂]
  by_cases h₃ : i = svg
  · subst h₃
    simp only [if_neg h₁, if_neg h₂, if_true, Array.getElem?_eq_getElem hsvg, Option.map_some]
  · simp only [if_neg h₁, if_neg h₂, if_neg h₃]

theorem parent?_injectStyle (i : NodeId) :
    (d.injectStyle svg css).parent? i =
      if i = d.nodes.size + 1 then some d.nodes.size
      else if i = d.nodes.size then some svg
      else d.parent? i := by
  rw [parent?, getElem?_injectStyle hcss hsvg]
  by_cases h₁ : i = d.nodes.size + 1
  · simp only [if_pos h₁, Option.bind_some]
  by_cases h₂ : i = d.nodes.size
  · simp only [if_neg h₁, if_pos h₂, Option.bind_some]
  by_cases h₃ : i = svg
  · subst h₃
    simp only [if_neg h₁, if_neg h₂, if_true, parent?, Array.getElem?_eq_getElem hsvg,
      Option.map_some, Option.bind_some]
  · simp only [if_neg h₁, if_neg h₂, if_neg h₃, parent?]

theorem element?_injectStyle {i : NodeId} (hi : i < d.nodes.size) :
    (d.injectStyle svg css).element? i = d.element? i := by
  have h₁ : i ≠ d.nodes.size + 1 := Nat.ne_of_lt (Nat.lt_succ_of_lt hi)
  have h₂ : i ≠ d.nodes.size := Nat.ne_of_lt hi
  rw [element?_eq, element?_eq, getElem?_injectStyle hcss hsvg, if_neg h₁, if_neg h₂]
  by_cases h₃ : i = svg
  · rw [if_pos h₃, Array.getElem?_eq_getElem hi]
    rfl
  · rw [if_neg h₃]

theorem growing_injectStyle (hd : d.Growing) : (d.injectStyle svg css).Growing := by
  intro id c hc
  rw [children_injectStyle hcss hsvg] at hc
  rw [size_injectStyle hcss]
  by_cases h₁ : id = d.nodes.size + 1
  · simp [h₁] at hc
  by_cases h₂ : id = d.nodes.size
  · rw [if_neg h₁, if_pos h₂] at hc
    rw [List.mem_singleton.mp hc, h₂]
    exact ⟨Nat.lt_succ_self _, Nat.lt_succ_self _⟩
  by_cases h₃ : id = svg
  · rw [if_neg h₁, if_neg h₂, if_pos h₃] at hc
    rcases List.mem_cons.mp hc with rfl | hc
    · exact ⟨h₃ ▸ hsvg, Nat.lt_add_of_pos_right (by decide)⟩
    · exact ⟨(hd id c hc).1, Nat.lt_add_right 2 (hd id c hc).2⟩
  · rw [if_neg h₁, if_neg h₂, if_neg h₃] at hc
    exact ⟨(hd id c hc).1, Nat.lt_add_right 2 (hd id c hc).2⟩

theorem parentsAreElements_injectStyle (hd : d.ParentsAreElements) (helement : d.isElement svg) :
    (d.injectStyle svg css).ParentsAreElements := by
  have hold : ∀ {p}, d.isElement p → (d.injectStyle svg css).isElement p := by
    intro p hp
    rwa [isElement, element?_injectStyle hcss hsvg (lt_size_of_isElement hp)]
  intro id p hp
  rw [parent?_injectStyle hcss hsvg] at hp
  split at hp
  · rw [← Option.some_inj.mp hp, isElement, element?_eq, getElem?_injectStyle hcss hsvg,
      if_neg (Nat.ne_of_lt (Nat.lt_succ_self _)), if_pos rfl]
    rfl
  · split at hp
    · rw [← Option.some_inj.mp hp]
      exact hold helement
    · exact hold (hd id p hp)

omit hsvg in
theorem root_injectStyle : (d.injectStyle svg css).root = d.root := by
  rw [injectStyle, if_neg (by simp [hcss])]
  rfl

/-- Of the children of a node, only the style and its text are new. -/
theorem filter_children_injectStyle (hd : d.Growing) (id : NodeId) :
    ((d.injectStyle svg css).children id).filter (· < d.nodes.size) = d.children id := by
  have hold : (d.children id).filter (· < d.nodes.size) = d.children id :=
    List.filter_eq_self.mpr fun c hc => decide_eq_true (hd id c hc).2
  rw [children_injectStyle hcss hsvg]
  by_cases h₁ : id = d.nodes.size + 1
  · rw [if_pos h₁, children_eq_nil_of_size_le (h₁ ▸ Nat.le_succ _)]
    rfl
  by_cases h₂ : id = d.nodes.size
  · rw [if_neg h₁, if_pos h₂, children_eq_nil_of_size_le (Nat.le_of_eq h₂.symm)]
    simp
  rw [if_neg h₁, if_neg h₂]
  split
  · rw [List.filter_cons, if_neg (by simp), hold]
  · exact hold

/-- A node is a link if it was one; the style and its text are none. -/
theorem isNamed_injectStyle (i : NodeId) :
    (d.injectStyle svg css).isNamed "a" i = (d.isNamed "a" i && decide (i < d.nodes.size)) := by
  by_cases hi : i < d.nodes.size
  · rw [isNamed, element?_injectStyle hcss hsvg hi, decide_eq_true hi, Bool.and_true, isNamed]
  · rw [decide_eq_false hi, Bool.and_false, isNamed, element?_eq, getElem?_injectStyle hcss hsvg]
    by_cases h₁ : i = d.nodes.size + 1
    · rw [if_pos h₁]
      rfl
    by_cases h₂ : i = d.nodes.size
    · have hname : Element.localName ⟨"style", [], [("type", "text/css")]⟩ ≠ "a" := by decide
      rw [if_neg h₁, if_pos h₂]
      exact decide_eq_false hname
    · have h₃ : i ≠ svg := fun h => hi (h ▸ hsvg)
      rw [if_neg h₁, if_neg h₂, if_neg h₃, Array.getElem?_eq_none (Nat.le_of_not_lt hi)]
      rfl

/-- The links are the same, in the same order. -/
theorem anchors_injectStyle_of_not_hasStyle (hd : d.Growing) :
    (d.injectStyle svg css).anchors = d.anchors := by
  -- Fuel and depth have changed with the number of nodes, so walks are compared as preorders.
  have hwalk := descendants_eq_preorder (hd.depthAtMost d.root)
  have hwalk' := descendants_eq_preorder
    ((growing_injectStyle hcss hsvg hd).depthAtMost (d.injectStyle svg css).root)
  have hdepth : d.preorderWithin (d.nodes.size + 2) d.root = d.preorder d.root :=
    preorderWithin_eq (Nat.le_add_right _ 2) (hd.depthAtMost d.root)
  have hnamed : (d.injectStyle svg css).isNamed "a" =
      fun i => d.isNamed "a" i && decide (i < d.nodes.size) :=
    funext (isNamed_injectStyle hcss hsvg)
  have hself : (fun i => d.isNamed "a" i && decide (i < d.nodes.size)) = d.isNamed "a" := by
    funext i
    cases h : d.isNamed "a" i with
    | false => rfl
    | true => simp [lt_size_of_isElement (isElement_of_isNamed h)]
  rw [anchors, elementsNamed, hwalk', hnamed, preorder, size_injectStyle hcss,
    root_injectStyle hcss, ← List.filter_filter,
    filter_preorderWithin (filter_children_injectStyle hcss hsvg hd),
    hdepth, List.filter_filter, hself, anchors, elementsNamed, hwalk]

end Inserted

/-- A stylesheet changes no link, neither its place among the links nor its attributes. -/
theorem anchors_injectStyle (hd : d.Growing) {svg : NodeId} (helement : d.isElement svg)
    (css : String) : (d.injectStyle svg css).anchors = d.anchors := by
  rcases hcss : d.hasStyle css
  · exact anchors_injectStyle_of_not_hasStyle hcss (lt_size_of_isElement helement) hd
  · rw [injectStyle, if_pos (by simp [hcss])]

/-- A wired drawing with a stylesheet in one of its elements still fits its wiring. -/
theorem wired_injectStyle {w : Wiring} (hd : d.Wired w) (hgrowing : d.Growing) {svg : NodeId}
    (helement : d.isElement svg) (css : String) : (d.injectStyle svg css).Wired w := by
  refine ⟨?_, fun link hlink => ?_⟩
  · rcases hcss : d.hasStyle css
    · exact parentsAreElements_injectStyle hcss (lt_size_of_isElement helement) hd.parents helement
    · rw [injectStyle, if_pos (by simp [hcss])]
      exact hd.parents
  · rw [anchors_injectStyle hgrowing helement]
    exact hd.headers link hlink

end GraphFolding.Drawing
namespace GraphFolding.Snapshot

open Drawing

/-- The start of a snapshot of a drawing that was read: there is one if the drawing has an
`svg` element. -/
theorem start_eq {source : String} {d : Drawing} (hd : ofString source = .ok d)
    (settings : Settings) : start source settings =
      match d.svgRoot? with
      | some svg => .ok ⟨(d.wire settings.fold).1.injectStyle svg
          (stylesheet settings.fold settings.style), (d.wire settings.fold).2, [], []⟩
      | none => .error .noSvg := by
  rw [start, hd]
  rcases hsvg : d.svgRoot? with _ | svg
  · simp [bind, Except.bind, prepare, hsvg]
    rfl
  · simp [bind, Except.bind, prepare, hsvg, pure, Except.pure]

theorem start_eq_ok {source : String} {settings : Settings} {s : Snapshot}
    (h : start source settings = .ok s) : ∃ d svg, ofString source = .ok d ∧
      d.svgRoot? = some svg ∧ s = ⟨(d.wire settings.fold).1.injectStyle svg
        (stylesheet settings.fold settings.style), (d.wire settings.fold).2, [], []⟩ := by
  rcases hd : ofString source with e | d
  · simp [start, hd, bind, Except.bind] at h
  · rw [start_eq hd] at h
    rcases hsvg : d.svgRoot? with _ | svg
    · simp [hsvg] at h
    · rw [hsvg] at h
      exact ⟨d, svg, rfl, hsvg, (Except.ok.inj h).symm⟩

/-- The drawing of a snapshot fits its wiring before it is clicked. -/
theorem wired_start {source : String} {settings : Settings} {s : Snapshot}
    (h : start source settings = .ok s) : s.drawing.Wired s.wiring := by
  obtain ⟨d, svg, hd, hsvg, rfl⟩ := start_eq_ok h
  have hbare := bare_wire d settings.fold
  have helement : (d.wire settings.fold).1.isElement svg := by
    rw [isElement_eq hbare]
    exact isElement_of_isNamed (List.find?_eq_some_iff_append.mp hsvg).1
  dsimp only
  exact wired_injectStyle (wired_wire (parentsAreElements_ofString hd) _)
    ((growing_ofString hd).congr hbare) helement _

end GraphFolding.Snapshot
