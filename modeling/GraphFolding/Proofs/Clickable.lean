/-
Which clusters can be clicked.

A listing names the clusters of headers, a lookup finds the first header of a cluster, and a
snapshot keeps the names that it has no header for.  All three read the headers of the wired
drawing, which stay what they are:

* `Drawing.headerCluster?` — the cluster of a link that is a header;
* `Drawing.Clickable` — a list of clusters is what listings and lookups go by;
* `SameLinks` — drawings with the same links in the same clusters, such as a drawing with a
  stylesheet, or after clicks;
* `clickable_of_ofString` — drawings that were read: what is listed, and which names of a
  snapshot are unknown;
* `not_forall_snapshot` — a drawing that can be read and listed, but has no snapshot.
-/
import GraphFolding.Command.Run
import GraphFolding.Proofs.NamedClicks
import GraphFolding.Proofs.Retouching
import Mathlib.Data.List.Basic
import Mathlib.Data.List.Find
namespace GraphFolding

/-- Values in the order in which a list has them first. -/
theorem pairwise_findIdx_eraseDups {α β : Type} [DecidableEq β] {l : List α} :
    ∀ (f : α → Option β), (l.filterMap f).eraseDups.Pairwise fun x y =>
      l.findIdx (fun a => f a = some x) < l.findIdx (fun a => f a = some y) := by
  induction l with
  | nil => exact fun _ => List.Pairwise.nil
  | cons a l ih =>
    intro f
    rcases hf : f a with _ | b
    · -- All places are one further on.
      rw [List.filterMap_cons_none hf]
      refine (ih f).imp fun h => ?_
      simpa [List.findIdx_cons, hf] using h
    · -- What is left for the rest of the list are the values other than `b`.
      have hrest : (l.filterMap f).filter (fun c => !c == b) =
          l.filterMap (fun c => (f c).filter (fun v => !v == b)) := by
        rw [List.filter_filterMap]
      have hne : ∀ x ∈ (l.filterMap fun c => (f c).filter (fun v => !v == b)).eraseDups,
          b ≠ x := by
        intro x hx
        obtain ⟨c, -, hc⟩ := List.mem_filterMap.mp (List.mem_eraseDups.mp hx)
        have := (Option.filter_eq_some_iff.mp hc).2
        rintro rfl
        simp at this
      have hplace : ∀ x, b ≠ x → (a :: l).findIdx (fun c => f c = some x) =
          l.findIdx (fun c => (f c).filter (fun v => !v == b) = some x) + 1 := by
        intro x hx
        have hsame : (fun c => decide ((f c).filter (fun v => !v == b) = some x)) =
            fun c => decide (f c = some x) := by
          funext c
          rcases f c with _ | v
          · rfl
          · by_cases hv : v = x <;> simp [Option.filter, hv, Ne.symm hx]
        rw [hsame, List.findIdx_cons]
        simp [hf, hx]
      rw [List.filterMap_cons_some hf, List.eraseDups_cons, hrest, List.pairwise_cons]
      refine ⟨fun x hx => ?_, (ih _).imp_of_mem fun hx hy h => ?_⟩
      · rw [hplace x (hne x hx), List.findIdx_cons]
        simp [hf]
      · rw [hplace _ (hne _ hx), hplace _ (hne _ hy)]
        exact Nat.succ_lt_succ h

/-! ### Headers of a wired drawing -/

theorem Wiring.role_eq_header_iff {w : Wiring} {link : NodeId} :
    w.role link = some .header ↔ link ∈ w.headers := by
  rw [role_eq]
  by_cases hheader : link ∈ w.headers <;> by_cases hsilent : link ∈ w.silent <;>
    simp [hheader, hsilent]

namespace Drawing

variable {r : FoldRules} {w : Wiring}

/-- The cluster of a link, if the link is a header. -/
def headerCluster? (d : Drawing) (r : FoldRules) (w : Wiring) (link : NodeId) :
    Option String :=
  if w.role link = some .header then d.attribute? link r.clusterAttribute else none

/-- A list of clusters is what listings and lookups go by: it names the cluster of every header
once, in the order of the first headers, and looking up a name gives the first header of that
cluster among all links, if the name is in the list. -/
structure Clickable (d : Drawing) (r : FoldRules) (w : Wiring) (listed : List String) : Prop where
  clusters : w.clusters d r = listed
  nodup : listed.Nodup
  mem_iff : ∀ x, x ∈ listed ↔ ∃ link ∈ d.anchors, d.headerCluster? r w link = some x
  ordered : listed.Pairwise fun x y =>
    d.anchors.findIdx (fun link => d.headerCluster? r w link = some x) <
      d.anchors.findIdx (fun link => d.headerCluster? r w link = some y)
  found_iff : ∀ x, (w.headerFor? d r x).isSome ↔ x ∈ listed
  first : ∀ x, w.headerFor? d r x =
    d.anchors.find? fun link => d.headerCluster? r w link = some x

/-- Where the headers are links in document order, listings and lookups agree. -/
theorem clickable_clusters {d : Drawing}
    (h : w.headers = d.anchors.filter fun link => w.role link = some .header) :
    d.Clickable r w (w.clusters d r) := by
  have hclusters : w.clusters d r = (d.anchors.filterMap (d.headerCluster? r w)).eraseDups := by
    rw [Wiring.clusters, h, List.filterMap_filter]
    simp only [decide_eq_true_eq]
    rfl
  have hmem : ∀ x, x ∈ w.clusters d r ↔
      ∃ link ∈ d.anchors, d.headerCluster? r w link = some x := by
    intro x
    rw [hclusters, List.mem_eraseDups, List.mem_filterMap]
  have hfirst : ∀ x, w.headerFor? d r x =
      d.anchors.find? fun link => d.headerCluster? r w link = some x := by
    intro x
    rw [Wiring.headerFor?, h, List.find?_filter]
    congr 1
    funext link
    by_cases hrole : w.role link = some .header <;> simp [headerCluster?, hrole]
  refine ⟨rfl, ?_, hmem, ?_, fun x => ?_, hfirst⟩
  · rw [hclusters]
    exact nodup_eraseDups _
  · rw [hclusters]
    exact pairwise_findIdx_eraseDups _
  · rw [hfirst, List.find?_isSome, hmem]
    simp only [decide_eq_true_eq]

theorem headers_eq_filter_role (d : Drawing) (r : FoldRules) :
    (d.wire r).2.headers =
      (d.wire r).1.anchors.filter fun link => (d.wire r).2.role link = some .header := by
  rw [anchors_eq (bare_wire d r)]
  simp only [Wiring.role_eq_header_iff]
  rw [headers_wire]
  refine List.filter_congr fun link hlink => ?_
  simp [hlink]

end Drawing

/-! ### Drawings with the same links -/

/-- Drawings with the same links in the same order, which refer to the same clusters. -/
structure SameLinks (r : FoldRules) (d d' : Drawing) : Prop where
  anchors : d'.anchors = d.anchors
  clusters : ∀ link ∈ d.anchors,
    d'.attribute? link r.clusterAttribute = d.attribute? link r.clusterAttribute

namespace SameLinks

open Drawing

variable {r : FoldRules} {w : Wiring} {d d' d'' : Drawing}

theorem trans (h : SameLinks r d d') (h' : SameLinks r d' d'') : SameLinks r d d'' where
  anchors := h'.anchors.trans h.anchors
  clusters link hlink :=
    (h'.clusters link (h.anchors ▸ hlink)).trans (h.clusters link hlink)

theorem of_unclassed_eq (h : d'.unclassed = d.unclassed) (hclass : r.clusterAttribute ≠ "class") :
    SameLinks r d d' where
  anchors := anchors_eq (bare_eq_of_unclassed_eq h)
  clusters link _ := attribute?_eq h hclass link

theorem injectStyle (hd : d.Growing) {svg : NodeId} (helement : d.isElement svg) (css : String) :
    SameLinks r d (d.injectStyle svg css) where
  anchors := anchors_injectStyle hd helement css
  clusters link hlink := by
    rcases hcss : d.hasStyle css
    · have hsize := lt_size_of_isElement (isElement_of_mem_anchors hlink)
      rw [attribute?, element?_injectStyle hcss (lt_size_of_isElement helement) hsize, attribute?]
    · rw [Drawing.injectStyle, if_pos (by simp [hcss])]

section

variable (h : SameLinks r d d') (hw : ∀ link ∈ w.headers, link ∈ d.anchors)
include h hw

theorem clusters_eq : w.clusters d' r = w.clusters d r := by
  rw [Wiring.clusters, Wiring.clusters,
    List.filterMap_congr fun link hlink => h.clusters link (hw link hlink)]

theorem headerFor?_eq (x : String) : w.headerFor? d' r x = w.headerFor? d r x := by
  rw [Wiring.headerFor?, Wiring.headerFor?]
  refine List.find?_congr fun link hlink => ?_
  rw [h.clusters link (hw link hlink)]

/-- What can be clicked is the same. -/
theorem clickable (hheaders : w.headers = d.anchors.filter fun link => w.role link = some .header) :
    d'.Clickable r w (w.clusters d r) := by
  rw [← h.clusters_eq hw]
  refine clickable_clusters ?_
  rw [h.anchors]
  exact hheaders

end

end SameLinks

/-! ### Snapshots -/

namespace Snapshot

open Drawing

variable {r : FoldRules}

theorem unclassed_clickNamed (s : Snapshot) (r : FoldRules) (name : String) :
    (s.clickNamed r name).drawing.unclassed = s.drawing.unclassed := by
  rw [clickNamed]
  rcases s.wiring.headerFor? s.drawing r name with _ | link
  · rfl
  · exact (reclassed_click r s.drawing s.wiring link).unclassed

theorem unclassed_clickAll (r : FoldRules) (names : List String) : ∀ (s : Snapshot),
    (s.clickAll r names).drawing.unclassed = s.drawing.unclassed := by
  induction names with
  | nil => exact fun _ => rfl
  | cons name names ih =>
    intro s
    rw [clickAll_cons, ih, unclassed_clickNamed]

theorem wiring_clickAll (r : FoldRules) (names : List String) : ∀ (s : Snapshot),
    (s.clickAll r names).wiring = s.wiring := by
  induction names with
  | nil => exact fun _ => rfl
  | cons name names ih =>
    intro s
    rw [clickAll_cons, ih, clickNamed_wiring]

/-- The names that a snapshot has no header for, as they come. -/
theorem unknown_clickAll (hclass : r.clusterAttribute ≠ "class") {listed : List String}
    {names : List String} : ∀ {s : Snapshot},
    (∀ x, (s.wiring.headerFor? s.drawing r x).isSome ↔ x ∈ listed) →
    (s.clickAll r names).unknown = s.unknown ++ names.filter (· ∉ listed) := by
  induction names with
  | nil =>
    intro s _
    simp [clickAll]
  | cons name names ih =>
    intro s hs
    -- A click moves no cluster, so that later names are looked up with the same result.
    have hnext : ∀ x, ((s.clickNamed r name).wiring.headerFor? (s.clickNamed r name).drawing r
        x).isSome ↔ x ∈ listed := by
      intro x
      rw [clickNamed_wiring, Wiring.headerFor?]
      simp only [attribute?_eq (unclassed_clickNamed s r name) hclass]
      exact hs x
    have hstep : (s.clickNamed r name).unknown =
        s.unknown ++ [name].filter (· ∉ listed) := by
      rw [clickNamed]
      rcases hfor : s.wiring.headerFor? s.drawing r name with _ | link
      · have hnot : name ∉ listed := fun h => by simpa [hfor] using (hs name).mpr h
        simp [hnot]
      · have hin : name ∈ listed := (hs name).mp (by simp [hfor])
        simp [hin]
    rw [clickAll_cons, ih hnext, hstep, List.append_assoc, ← List.filter_append,
      List.singleton_append]

/-- What can be clicked.  In a drawing that was read and wired, listing names exactly the
clusters whose lookup finds a header, each once and in the order of their first headers.  If the
drawing has an `svg` element, there is a snapshot for every list of clicks, its unknown names
are those that are not listed, and at every moment of it the same clusters are listed and the
same headers found; otherwise there is none. -/
theorem clickable_of_ofString {source : String} {d : Drawing} (hd : ofString source = .ok d)
    {settings : Settings} (hclass : settings.fold.clusterAttribute ≠ "class")
    (names : List String) :
    let r := settings.fold
    let wired := (d.wire r).1
    let w := (d.wire r).2
    let listed := w.clusters wired r
    wired.Clickable r w listed ∧
    (Command.listText settings source).2 =
      .ok (.print (String.join (listed.map (listingLine wired r)))) ∧
    (d.svgRoot? = none → snapshot source settings names = .error .noSvg) ∧
    (d.svgRoot?.isSome →
      (∃ final, snapshot source settings names = .ok final ∧
        final.unknown = names.filter (· ∉ listed)) ∧
      ∃ s, start source settings = .ok s ∧ ∀ before after, names = before ++ after →
        let now := s.clickAll r before
        now.wiring = w ∧ now.drawing.Clickable r w listed ∧
          ∀ x, w.headerFor? now.drawing r x = w.headerFor? wired r x) := by
  intro r wired w listed
  have hheaders : w.headers = wired.anchors.filter fun link => w.role link = some .header :=
    headers_eq_filter_role d r
  have hanchors : ∀ link ∈ w.headers, link ∈ wired.anchors := fun link hlink =>
    (List.mem_filter.mp (hheaders ▸ hlink)).1
  refine ⟨clickable_clusters hheaders, ?_, fun hsvg => ?_, fun hsome => ?_⟩
  · rw [Command.listText, hd]
    rfl
  · rw [snapshot, start_eq hd, hsvg]
    rfl
  -- The stylesheet brings no link and moves no cluster, and clicks write class lists only.
  obtain ⟨svg, hsvg⟩ := Option.isSome_iff_exists.mp hsome
  have helement : wired.isElement svg := by
    rw [isElement_eq (bare_wire d r)]
    exact isElement_of_isNamed (List.find?_eq_some_iff_append.mp hsvg).1
  have hstyled : SameLinks r wired (wired.injectStyle svg (stylesheet r settings.style)) :=
    .injectStyle ((growing_ofString hd).congr (bare_wire d r)) helement _
  obtain ⟨s, hs⟩ : ∃ s : Snapshot,
      s = ⟨wired.injectStyle svg (stylesheet r settings.style), w, [], []⟩ := ⟨_, rfl⟩
  have hstart : start source settings = .ok s := by
    rw [start_eq hd, hsvg, hs]
  have hfinal : snapshot source settings names = .ok (s.clickAll r names) := by
    rw [snapshot, hstart]
    rfl
  have hwiring : s.wiring = w := by rw [hs]
  have hdrawing : SameLinks r wired s.drawing := by
    rw [hs]
    exact hstyled
  have hunknown : (s.clickAll r names).unknown = names.filter (· ∉ listed) := by
    have hfound : ∀ x, (s.wiring.headerFor? s.drawing r x).isSome ↔ x ∈ listed := by
      rw [hwiring]
      exact (hdrawing.clickable hanchors hheaders).found_iff
    rw [unknown_clickAll hclass hfound, hs, List.nil_append]
  refine ⟨⟨_, hfinal, hunknown⟩, s, hstart, ?_⟩
  intro before after _ now
  have hnow : SameLinks r wired now.drawing :=
    hdrawing.trans (.of_unclassed_eq (unclassed_clickAll r before s) hclass)
  exact ⟨(wiring_clickAll r before s).trans hwiring, hnow.clickable hanchors hheaders,
    hnow.headerFor?_eq hanchors⟩

theorem clickable_nestedPair : ∃ final,
    snapshot nestedPairText {} ["m", "q", "m.n", "q"] = .ok final ∧
      final.unknown = ["q", "q"] := by
  have hclass : (Settings.fold {}).clusterAttribute ≠ "class" := by decide
  have h := clickable_of_ofString ofString_nestedPair hclass ["m", "q", "m.n", "q"]
  obtain ⟨final, hfinal, hunknown⟩ := (h.2.2.2 (by decide +kernel)).1
  exact ⟨final, hfinal, hunknown.trans (by decide +kernel)⟩

/-- A text whose first element is closed by an entity, so that another one is the root. -/
def rootlessText : String := "<!DOCTYPE svg [<!ENTITY e \"<b/></svg>\">]><svg>&e;<g/>"

/-- The drawing of the text, whose root is not its `svg` element. -/
def rootless : Drawing where
  nodes := #[⟨.element ⟨"svg", [], []⟩, none, [1]⟩, ⟨.element ⟨"b", [], []⟩, some 0, []⟩,
    ⟨.element ⟨"g", [], []⟩, none, []⟩]
  root := 2
  prologue := []
  epilogue := []

theorem ofString_rootless : ofString rootlessText = .ok rootless :=
  eq_ok_of_toOption (by decide +kernel)

/-- Not every drawing that can be read, and listed, has a snapshot. -/
theorem not_forall_snapshot : ¬∀ source d, ofString source = .ok d → ∀ names,
    ∃ final, snapshot source {} names = .ok final ∧
      final.unknown = names.filter (· ∉ (d.wire {}).2.clusters (d.wire {}).1 {}) := by
  intro h
  obtain ⟨final, hfinal, -⟩ := h rootlessText rootless ofString_rootless ["q"]
  have hsvg : rootless.svgRoot? = none := by decide +kernel
  -- The outermost element is `g`, and no `svg` element lies below it.
  rw [snapshot, start_eq ofString_rootless, hsvg] at hfinal
  simp [bind, Except.bind] at hfinal

end Snapshot
end GraphFolding
