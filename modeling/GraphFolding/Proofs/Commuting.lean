/-
Clicks on clusters that have nothing to do with each other.

A click writes nodes of the clicked cluster and of those below it.  No cluster lies below two
clusters of which neither lies below the other, so the writes of clicks on such clusters share
no element:

* `Drawing.clickWrites`, `click_fst_eq_writeAll` — a click as a list of writes known beforehand;
* `Drawing.Governs` — the clusters that a click writes;
* `clickWrites_apart` — the writes of two clicks share no element;
* `clicks_commute` — so either order gives the same drawing and the same reports.
-/
import GraphFolding.Proofs.ClassWrites
import GraphFolding.Proofs.Grafting
import GraphFolding.Proofs.Territory
import GraphFolding.Proofs.WiringEffect
namespace GraphFolding

theorem Refolded.visibilityWrites_eq {r : FoldRules} {d d' : Drawing} (h : Refolded r d d')
    (hr : r.Separate) (cluster : String) (trigger : Option NodeId) (visible : Bool) :
    d'.visibilityWrites r cluster trigger visible =
      d.visibilityWrites r cluster trigger visible :=
  h.visibilityWrites_eq_of_ne hr.frame_ne_hidden hr.frame_ne_collapsed hr.cluster_ne_class
    cluster trigger visible

namespace Drawing

variable {r : FoldRules} {w : Wiring}

/-! ### A click as a list of writes -/

theorem setVisibilities_eq_writeAll (hr : r.Separate) {visible : Bool}
    {clusters : List String} : ∀ {d d' : Drawing}, Refolded r d d' →
    d'.setVisibilities r visible clusters =
      d'.writeAll (clusters.flatMap (d.visibilityWrites r · none visible)) := by
  induction clusters with
  | nil => exact fun _ => rfl
  | cons cluster clusters ih =>
    intro d d' h
    have hstep := refolded_setVisibility hr d' cluster none visible
    rw [setVisibilities, List.foldl_cons, ← setVisibilities, ih (h.trans hstep),
      List.flatMap_cons, writeAll_append, setVisibility_fst hr.cluster_ne_class,
      h.visibilityWrites_eq hr]

/-- The writes of a click: those of the clusters below come first, and then those of the
clicked one. -/
def clickWrites (d : Drawing) (r : FoldRules) (w : Wiring) (cluster : String)
    (container : NodeId) (visible : Bool) : List ClassWrite :=
  (d.cascaded r w.headers cluster).flatMap (d.visibilityWrites r · none visible) ++
    d.visibilityWrites r cluster (some container) visible

theorem click_fst_eq_writeAll (hr : r.Separate) {d : Drawing} {link : NodeId}
    {cluster : String} {container : NodeId}
    (h : d.target? r w link = some (cluster, container)) :
    (d.click r w link).1 = d.writeAll
      (d.clickWrites r w cluster container (d.hasClass container r.collapsedClass)) := by
  have hcascade := refolded_setVisibilities hr d (d.hasClass container r.collapsedClass)
    (d.cascaded r w.headers cluster)
  rw [click_fst hr h, setVisibility_fst hr.cluster_ne_class, hcascade.visibilityWrites_eq hr,
    setVisibilities_eq_writeAll hr (.refl r d), clickWrites, writeAll_append]

section Refold

variable {d d' : Drawing} (h : Refolded r d d') (hr : r.Separate)
include h hr

theorem cascaded_eq (headers : List NodeId) (cluster : String) :
    d'.cascaded r headers cluster = d.cascaded r headers cluster := by
  simp only [cascaded, h.cluster_eq hr]

theorem clickWrites_eq (w : Wiring) (cluster : String) (container : NodeId) (visible : Bool) :
    d'.clickWrites r w cluster container visible =
      d.clickWrites r w cluster container visible := by
  simp only [clickWrites, cascaded_eq h hr, h.visibilityWrites_eq hr]

/-- A click reports the same in drawings folded differently, if its container is marked
alike. -/
theorem click_snd_eq {link : NodeId}
    (hmark : ∀ cluster container, d.target? r w link = some (cluster, container) →
      d'.hasClass container r.collapsedClass = d.hasClass container r.collapsedClass) :
    (d'.click r w link).2 = (d.click r w link).2 := by
  rcases htarget : d.target? r w link with _ | ⟨cluster, container⟩
  · have htarget' : d'.target? r w link = none := (target?_eq hr h w link).trans htarget
    rw [click_of_target?_eq_none htarget, click_of_target?_eq_none htarget']
  · have htarget' : d'.target? r w link = some (cluster, container) :=
      (target?_eq hr h w link).trans htarget
    rw [click_snd hr htarget, click_snd hr htarget', hmark cluster container htarget]
    simp only [cascaded_eq h hr, h.report_eq hr]

end Refold

/-! ### What a click writes -/

/-- Whether a click on a cluster writes a cluster of a header: the cluster itself, or one that
lies below it. -/
def Governs (d : Drawing) (r : FoldRules) (w : Wiring) (clicked cluster : String) : Prop :=
  cluster ∈ w.clusters d r ∧ (cluster = clicked ∨ r.isBelow cluster clicked = true)

theorem exists_touches_of_mem_clickWrites {d : Drawing} {clicked : String}
    (hclicked : clicked ∈ w.clusters d r) {container : NodeId} {visible : Bool} {x : ClassWrite}
    (hx : x ∈ d.clickWrites r w clicked container visible) :
    ∃ cluster, d.Governs r w clicked cluster ∧ d.Touches r cluster x.id := by
  rcases List.mem_append.mp hx with hx | hx
  · obtain ⟨sub, hsub, hx⟩ := List.mem_flatMap.mp hx
    obtain ⟨hcluster, hbelow⟩ := mem_cascaded.mp hsub
    exact ⟨sub, ⟨hcluster, .inr hbelow⟩, id_of_mem_visibilityWrites hx⟩
  · exact ⟨clicked, ⟨hclicked, .inl rfl⟩, id_of_mem_visibilityWrites hx⟩

/-- No path lies at or below two paths of which neither lies below the other. -/
theorem not_governs_of_unrelated
    (hborder : ClusterPath.BorderFree (ClusterPath.seam r.nesting r.separator)) {d : Drawing}
    {a b : String} (hne : a ≠ b) (hab : r.isBelow a b = false) (hba : r.isBelow b a = false)
    {cluster : String} (h : d.Governs r w a cluster) : ¬d.Governs r w b cluster := by
  rintro ⟨-, hb⟩
  rcases h.2 with rfl | ha
  · -- The cluster is `a` itself.
    rcases hb with rfl | hb
    · exact hne rfl
    · rw [hab] at hb
      exact Bool.noConfusion hb
  · rcases hb with rfl | hb
    · rw [hba] at ha
      exact Bool.noConfusion ha
    · -- Two different paths above the cluster would be nested.
      rcases ClusterPath.isBelow_chain hborder ha hb hne with h | h
      · exact Bool.noConfusion (hab.symm.trans h)
      · exact Bool.noConfusion (hba.symm.trans h)

/-- Clicks on unrelated clusters write different elements. -/
theorem clickWrites_apart
    (hborder : ClusterPath.BorderFree (ClusterPath.seam r.nesting r.separator)) {d : Drawing}
    (ho : d.Orderly r w) {a b : String} (ha : a ∈ w.clusters d r) (hb : b ∈ w.clusters d r)
    (hne : a ≠ b) (hab : r.isBelow a b = false) (hba : r.isBelow b a = false)
    {t t' : NodeId} {v v' : Bool} : ∀ x ∈ d.clickWrites r w a t v,
    ∀ y ∈ d.clickWrites r w b t' v', x.id ≠ y.id := by
  intro x hx y hy hid
  obtain ⟨c, hc, hxc⟩ := exists_touches_of_mem_clickWrites ha hx
  obtain ⟨c', hc', hyc⟩ := exists_touches_of_mem_clickWrites hb hy
  rw [← hid] at hyc
  have hcc : c = c' := ho.touches_unique hc.1 hc'.1 hxc hyc
  subst hcc
  exact not_governs_of_unrelated hborder hne hab hba hc hc'

/-! ### Two clicks -/

section Unrelated

variable (hr : r.Separate)
  (hborder : ClusterPath.BorderFree (ClusterPath.seam r.nesting r.separator)) {d : Drawing}
  (hd : d.Wired w) (ho : d.Orderly r w) {a b : String} (hne : a ≠ b)
  {l l' : NodeId} (hl : d.attribute? l r.clusterAttribute = some a)
  (hl' : d.attribute? l' r.clusterAttribute = some b)
include hr hd ho hne hl hl'

/-- A click on one cluster leaves the mark of the container of another one. -/
theorem collapsed_click_of_ne {cluster : String} {t' : NodeId}
    (h' : d.target? r w l' = some (cluster, t')) :
    (d.click r w l).1.hasClass t' r.collapsedClass = d.hasClass t' r.collapsedClass := by
  rcases h : d.target? r w l with _ | ⟨c, t⟩
  · rw [click_of_target?_eq_none h]
  · rw [collapsed_click hr hd h, if_neg]
    rintro rfl
    -- One container would belong to both clusters.
    obtain rfl := ho.members_unique (hd.target_mem h) (hd.target_mem h')
    have ha := (target?_eq_some.mp h).2.1
    have hb := (target?_eq_some.mp h').2.1
    exact hne (Option.some_inj.mp ((hl.symm.trans ha).trans (hb.symm.trans hl')))

/-- A click reports the same after a click on another cluster. -/
theorem click_snd_click_of_ne :
    ((d.click r w l).1.click r w l').2 = (d.click r w l').2 :=
  click_snd_eq (refolded_click hr d w l) hr fun _ _ h =>
    collapsed_click_of_ne hr hd ho hne hl hl' h

include hborder

theorem click_fst_comm (hab : r.isBelow a b = false) (hba : r.isBelow b a = false) :
    ((d.click r w l).1.click r w l').1 = ((d.click r w l').1.click r w l).1 := by
  have hstep := refolded_click hr d w l
  have hstep' := refolded_click hr d w l'
  have hkeep := target?_eq hr hstep w l'
  have hkeep' := target?_eq hr hstep' w l
  rcases h : d.target? r w l with _ | ⟨c, t⟩
  · -- One click that does nothing does nothing later on.
    rw [click_of_target?_eq_none h, click_of_target?_eq_none (hkeep'.trans h)]
  rcases h' : d.target? r w l' with _ | ⟨c', t'⟩
  · rw [click_of_target?_eq_none h', click_of_target?_eq_none (hkeep.trans h')]
  obtain rfl : c = a := Option.some_inj.mp ((target?_eq_some.mp h).2.1.symm.trans hl)
  obtain rfl : c' = b := Option.some_inj.mp ((target?_eq_some.mp h').2.1.symm.trans hl')
  -- Each of the second clicks goes the way it would have gone first.
  rw [click_fst_eq_writeAll hr (hkeep.trans h'), click_fst_eq_writeAll hr (hkeep'.trans h),
    collapsed_click_of_ne hr hd ho hne hl hl' h',
    collapsed_click_of_ne hr hd ho hne.symm hl' hl h, clickWrites_eq hstep hr,
    clickWrites_eq hstep' hr, click_fst_eq_writeAll hr h, click_fst_eq_writeAll hr h']
  exact writeAll_comm (clickWrites_apart hborder ho (clicked_mem_clusters h)
    (clicked_mem_clusters h') hne hab hba)

end Unrelated

/-- Clicks on unrelated clusters commute.  In a drawing that was read and wired, whose clusters
share no nodes, take any two links whose clusters are different and not nested in each other:
after any run of clicks, the two clicks give the same drawing in either order, and each reports
what it would have reported alone. -/
theorem clicks_commute {text : String} {d : Drawing} (hd : ofString text = .ok d)
    (hr : r.Separate)
    (hborder : ClusterPath.BorderFree (ClusterPath.seam r.nesting r.separator))
    (ho : (d.wire r).1.Orderly r (d.wire r).2) (links : List NodeId) {l l' : NodeId}
    {a b : String} (ha : (d.wire r).1.attribute? l r.clusterAttribute = some a)
    (hb : (d.wire r).1.attribute? l' r.clusterAttribute = some b) (hne : a ≠ b)
    (hab : r.isBelow a b = false) (hba : r.isBelow b a = false) :
    let w := (d.wire r).2
    let now := (d.wire r).1.afterClicks r w links
    ((now.click r w l).1.click r w l').1 = ((now.click r w l').1.click r w l).1 ∧
    ((now.click r w l).1.click r w l').2 = (now.click r w l').2 ∧
    ((now.click r w l').1.click r w l).2 = (now.click r w l).2 := by
  intro w now
  have hrun : Refolded r (d.wire r).1 now := refolded_afterClicks hr (d.wire r).1 w links
  have hnow : now.Wired w := (wired_wire (parentsAreElements_ofString hd) r).refold hrun
  have honow : now.Orderly r w := ho.refold hr hrun
  rw [← hrun.cluster_eq hr] at ha hb
  exact ⟨click_fst_comm hr hborder hnow honow hne ha hb hab hba,
    click_snd_click_of_ne hr hnow honow hne ha hb,
    click_snd_click_of_ne hr hnow honow hne.symm hb ha⟩

/-- Parted by a slash, `m` and `m.n` are unrelated. -/
theorem clicks_commute_framedPair :
    let r : FoldRules := { separator := "/" }
    let w := (framedPair.wire r).2
    let now := (framedPair.wire r).1.afterClicks r w [12]
    ((now.click r w 9).1.click r w 12).1 = ((now.click r w 12).1.click r w 9).1 ∧
      (now.click r w 9).2.expanded = some false ∧ (now.click r w 12).2.expanded = some true := by
  intro r w now
  have hseparate : r.Separate :=
    ⟨by decide, by decide, by decide, by decide, by decide, by decide⟩
  have ho : (framedPair.wire r).1.Orderly r (framedPair.wire r).2 := by decide +kernel
  have hm : (framedPair.wire r).1.attribute? 9 r.clusterAttribute = some "m" := by
    decide +kernel
  have hn : (framedPair.wire r).1.attribute? 12 r.clusterAttribute = some "m.n" := by
    decide +kernel
  have h := clicks_commute ofString_framedPair hseparate
    (ClusterPath.borderFree_seam (.inr ⟨rfl, by decide⟩)) ho [12] hm hn (by decide)
    (by decide +kernel) (by decide +kernel)
  exact ⟨h.1, by decide +kernel, by decide +kernel⟩

end Drawing
end GraphFolding
