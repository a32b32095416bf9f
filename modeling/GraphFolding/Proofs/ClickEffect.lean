/-
What a click does to every node, and what a run of clicks keeps.

* `Drawing.target?` — the cluster and the container that a click on a link acts on;
* `Drawing.cascaded` — the clusters that a click shows or hides before the clicked one;
* `click_of_target?_eq_none`, `collapsed_click`, `hidden_click` — one click: nothing at
  all, or the two flags of every node in terms of the drawing before;
* `Drawing.afterClicks` — the drawing after a run of clicks, which is folded differently
  and otherwise the same (`refolded_afterClicks`).

The clusters of a cascade may write the same node several times; the last one counts.
-/
import GraphFolding.Folding.Click
import GraphFolding.Proofs.Visibility
namespace GraphFolding

/-- A drawing and the wiring of its links: headers are links, and containers elements. -/
structure Drawing.Wired (d : Drawing) (w : Wiring) : Prop where
  parents : d.ParentsAreElements
  headers : ∀ link ∈ w.headers, link ∈ d.anchors

theorem Wiring.role_eq (w : Wiring) (link : NodeId) : w.role link =
    if link ∈ w.headers then some .header else if link ∈ w.silent then some .silent else none := by
  simp only [role, List.contains_iff_mem]

namespace Drawing

variable {r : FoldRules} {w : Wiring}

/-- The clusters below a cluster that have headers, in the order of the headers and with
repeats. -/
def cascaded (d : Drawing) (r : FoldRules) (headers : List NodeId) (cluster : String) :
    List String :=
  (headers.filterMap (d.attribute? · r.clusterAttribute)).filter (r.isBelow · cluster)

/-- The cluster and the container that a click on a link acts on; it does so on headers only,
and only where there are both. -/
def target? (d : Drawing) (r : FoldRules) (w : Wiring) (link : NodeId) :
    Option (String × NodeId) :=
  if link ∈ w.headers then
    (d.attribute? link r.clusterAttribute).bind fun cluster =>
      (d.ancestor? link r.containerDepth).map fun container => (cluster, container)
  else none

theorem target?_eq_some {d : Drawing} {link : NodeId} {cluster : String} {container : NodeId} :
    d.target? r w link = some (cluster, container) ↔ link ∈ w.headers ∧
      d.attribute? link r.clusterAttribute = some cluster ∧
      d.ancestor? link r.containerDepth = some container := by
  rw [target?]
  split
  · rename_i h
    rcases d.attribute? link r.clusterAttribute with _ | c
    · simp
    · rcases d.ancestor? link r.containerDepth with _ | t <;> simp [h]
  · rename_i h
    simp [h]

/-- The container of a click is a member of its cluster. -/
theorem Wired.target_mem {d : Drawing} (hd : d.Wired w) {link : NodeId} {cluster : String}
    {container : NodeId} (h : d.target? r w link = some (cluster, container)) :
    container ∈ d.clusterMembers r cluster := by
  obtain ⟨hlink, hcluster, hcontainer⟩ := target?_eq_some.mp h
  exact mem_clusterMembers.mpr ⟨link, hd.headers link hlink, hcluster, hcontainer⟩

theorem Wired.congr {d d' : Drawing} (hd : d.Wired w) (h : d'.bare = d.bare) : d'.Wired w where
  parents := hd.parents.congr h
  headers link hlink := by
    rw [anchors_eq h]
    exact hd.headers link hlink

theorem Wired.refold {d d' : Drawing} (hd : d.Wired w) (h : Refolded r d d') : d'.Wired w :=
  hd.congr h.bare

/-! ### Cascades -/

/-- Several clusters shown or hidden without a trigger, one after the other. -/
def setVisibilities (d : Drawing) (r : FoldRules) (visible : Bool) (clusters : List String) :
    Drawing :=
  clusters.foldl (fun d cluster => (d.setVisibility r cluster none visible).1) d

theorem refolded_setVisibilities (hr : r.Separate) (d : Drawing) (visible : Bool)
    (clusters : List String) : Refolded r d (d.setVisibilities r visible clusters) :=
  Refolded.foldl (fun d cluster => refolded_setVisibility hr d cluster none visible) d clusters

/-- The flag `hidden` after several clusters were shown or hidden: the last cluster that
writes it counts. -/
theorem hidden_setVisibilities (hr : r.Separate) {visible : Bool} {clusters : List String} :
    ∀ {d : Drawing}, d.ParentsAreElements → ∀ (e : NodeId),
    (d.setVisibilities r visible clusters).hasClass e r.hiddenClass =
      (clusters.reverse.findSome? fun cluster => d.writtenFlag r cluster none visible e).getD
        (d.hasClass e r.hiddenClass) := by
  induction clusters with
  | nil => exact fun _ _ => rfl
  | cons cluster clusters ih =>
    intro d hd e
    have hstep := refolded_setVisibility hr d cluster none visible
    rw [setVisibilities, List.foldl_cons, ← setVisibilities, ih (hd.congr hstep.bare) e,
      hidden_setVisibility hr hd, List.reverse_cons, List.findSome?_append]
    -- A later cluster that writes the flag wins over this one.
    simp only [hstep.writtenFlag_eq hr, List.findSome?_singleton]
    rcases clusters.reverse.findSome? fun c => d.writtenFlag r c none visible e with _ | flag
    · rfl
    · rfl

/-- A cascade leaves the flag `collapsed` alone. -/
theorem collapsed_setVisibilities (hr : r.Separate) {visible : Bool} {clusters : List String} :
    ∀ {d : Drawing}, d.ParentsAreElements → ∀ (e : NodeId),
    (d.setVisibilities r visible clusters).hasClass e r.collapsedClass =
      d.hasClass e r.collapsedClass := by
  induction clusters with
  | nil => exact fun _ _ => rfl
  | cons cluster clusters ih =>
    intro d hd e
    have hstep := refolded_setVisibility hr d cluster none visible
    rw [setVisibilities, List.foldl_cons, ← setVisibilities, ih (hd.congr hstep.bare) e,
      collapsed_setVisibility hr hd, if_neg]
    rintro ⟨h, -⟩
    exact absurd h (by simp)

/-- The drawing after a cascade, and what it reports.  Neither depends on what the cascade has
done already, since it moves no cluster of a link. -/
theorem foldl_cascadeHeader (hr : r.Separate) {d : Drawing} (cluster : String) (visible : Bool)
    {headers : List NodeId} : ∀ {d' : Drawing} {toggles : List Toggle}, Refolded r d d' →
    headers.foldl (cascadeHeader r cluster visible) (d', toggles) =
      (d'.setVisibilities r visible (d.cascaded r headers cluster),
        toggles ++ (d.cascaded r headers cluster).map (d.report r · none visible)) := by
  induction headers with
  | nil =>
    intro d' toggles _
    simp [cascaded, setVisibilities]
  | cons header headers ih =>
    intro d' toggles h
    rw [List.foldl_cons, cascadeHeader]
    -- The cluster of the header is read off `d'`, and is the one it has in `d`.
    simp only [h.cluster_eq hr]
    rcases hsub : d.attribute? header r.clusterAttribute with _ | sub
    · have hskip : d.cascaded r (header :: headers) cluster = d.cascaded r headers cluster := by
        simp [cascaded, hsub]
      rw [hskip]
      exact ih h
    · by_cases hbelow : r.isBelow sub cluster
      · have hput : d.cascaded r (header :: headers) cluster =
            sub :: d.cascaded r headers cluster := by
          simp [cascaded, hsub, hbelow]
        simp only [hbelow, if_true]
        rw [hput, ih (h.trans (refolded_setVisibility hr d' sub none visible)),
          setVisibility_snd hr, h.report_eq hr, List.append_assoc]
        rfl
      · have hskip : d.cascaded r (header :: headers) cluster =
            d.cascaded r headers cluster := by
          simp [cascaded, hsub, hbelow]
        simp only [hbelow]
        rw [hskip]
        exact ih h

theorem cascade_eq (hr : r.Separate) (d : Drawing) (headers : List NodeId) (cluster : String)
    (visible : Bool) : d.cascade r headers cluster visible =
      (d.setVisibilities r visible (d.cascaded r headers cluster),
        (d.cascaded r headers cluster).map (d.report r · none visible)) :=
  foldl_cascadeHeader hr cluster visible (.refl r d)

theorem cascade_fst (hr : r.Separate) (d : Drawing) (headers : List NodeId) (cluster : String)
    (visible : Bool) : (d.cascade r headers cluster visible).1 =
      d.setVisibilities r visible (d.cascaded r headers cluster) := by
  rw [cascade_eq hr]

/-- The clusters of a cascade are those of headers, below the given one. -/
theorem mem_cascaded {d : Drawing} {cluster sub : String} :
    sub ∈ d.cascaded r w.headers cluster ↔
      sub ∈ w.clusters d r ∧ r.isBelow sub cluster = true := by
  rw [cascaded, List.mem_filter, Wiring.clusters, List.mem_eraseDups]

theorem clusters_eq (hr : r.Separate) {d d' : Drawing} (h : Refolded r d d') (w : Wiring) :
    w.clusters d' r = w.clusters d r := by
  simp only [Wiring.clusters, h.cluster_eq hr]

/-! ### One click -/

theorem target?_congr (hclass : r.clusterAttribute ≠ "class") {d d' : Drawing}
    (h : d'.unclassed = d.unclassed) (w : Wiring) (link : NodeId) :
    d'.target? r w link = d.target? r w link := by
  rw [target?, attribute?_eq h hclass, ancestor?_eq (bare_eq_of_unclassed_eq h), target?]

theorem target?_eq (hr : r.Separate) {d d' : Drawing} (h : Refolded r d d') (w : Wiring)
    (link : NodeId) : d'.target? r w link = d.target? r w link :=
  target?_congr hr.cluster_ne_class h.rest w link

/-- A header that a click on it does nothing with, whatever headers it runs over. -/
theorem clickHeader_of_target?_eq_none {d : Drawing} {link : NodeId} (hlink : link ∈ w.headers)
    (h : d.target? r w link = none) (headers : List NodeId) :
    d.clickHeader r headers link = (d, {}) := by
  rw [target?, if_pos hlink] at h
  rw [clickHeader]
  rcases hc : d.attribute? link r.clusterAttribute with _ | cluster
  · rfl
  · rcases ht : d.ancestor? link r.containerDepth with _ | container
    · rfl
    · simp [hc, ht] at h

/-- A click that acts on nothing leaves the drawing as it is and reports nothing. -/
theorem click_of_target?_eq_none {d : Drawing} {link : NodeId}
    (h : d.target? r w link = none) : d.click r w link = (d, {}) := by
  rw [click, Wiring.role_eq]
  by_cases hlink : link ∈ w.headers
  · rw [if_pos hlink]
    exact clickHeader_of_target?_eq_none hlink h w.headers
  · rw [if_neg hlink]
    by_cases hsilent : link ∈ w.silent
    · rw [if_pos hsilent]
    · rw [if_neg hsilent]

/-- A click on a header, taken apart: first the clusters below it that the headers name, then the
clicked one. -/
theorem clickHeader_of_target?_eq_some {d : Drawing} {link : NodeId} {cluster : String}
    {container : NodeId} (h : d.target? r w link = some (cluster, container))
    (headers : List NodeId) :
    let visible := d.hasClass container r.collapsedClass
    let inner := d.cascade r headers cluster visible
    let whole := inner.1.setVisibility r cluster (some container) visible
    d.clickHeader r headers link = (whole.1, ⟨inner.2 ++ [whole.2], some visible⟩) := by
  obtain ⟨-, hcluster, hcontainer⟩ := target?_eq_some.mp h
  simp only [clickHeader, hcluster, hcontainer]

theorem click_of_target?_eq_some {d : Drawing} {link : NodeId} {cluster : String}
    {container : NodeId} (h : d.target? r w link = some (cluster, container)) :
    let visible := d.hasClass container r.collapsedClass
    let inner := d.cascade r w.headers cluster visible
    let whole := inner.1.setVisibility r cluster (some container) visible
    d.click r w link = (whole.1, ⟨inner.2 ++ [whole.2], some visible⟩) := by
  rw [click, Wiring.role_eq, if_pos (target?_eq_some.mp h).1]
  exact clickHeader_of_target?_eq_some h w.headers

/-- The drawing after a click on a header. -/
theorem click_fst (hr : r.Separate) {d : Drawing} {link : NodeId} {cluster : String}
    {container : NodeId} (h : d.target? r w link = some (cluster, container)) :
    (d.click r w link).1 =
      ((d.setVisibilities r (d.hasClass container r.collapsedClass)
        (d.cascaded r w.headers cluster)).setVisibility r cluster (some container)
          (d.hasClass container r.collapsedClass)).1 := by
  rw [click_of_target?_eq_some h, cascade_fst hr]

/-- A click on a header reports the flag `collapsed` that its container had. -/
theorem expanded_click {d : Drawing} {link : NodeId} {cluster : String} {container : NodeId}
    (h : d.target? r w link = some (cluster, container)) :
    (d.click r w link).2.expanded = some (d.hasClass container r.collapsedClass) := by
  rw [click_of_target?_eq_some h]

/-- What a click on a header reports can be told from the drawing before. -/
theorem click_snd (hr : r.Separate) {d : Drawing} {link : NodeId} {cluster : String}
    {container : NodeId} (h : d.target? r w link = some (cluster, container)) :
    let visible := d.hasClass container r.collapsedClass
    (d.click r w link).2 = ⟨(d.cascaded r w.headers cluster).map (d.report r · none visible) ++
      [d.report r cluster (some container) visible], some visible⟩ := by
  have hcascade := refolded_setVisibilities hr d (d.hasClass container r.collapsedClass)
    (d.cascaded r w.headers cluster)
  rw [click_of_target?_eq_some h, cascade_eq hr]
  simp only [setVisibility_snd hr, hcascade.report_eq hr]

/-- A click on a header names the clusters of its cascade, and last the clicked one. -/
theorem toggled_click (hr : r.Separate) {d : Drawing} {link : NodeId} {cluster : String}
    {container : NodeId} (h : d.target? r w link = some (cluster, container)) :
    (d.click r w link).2.toggled = d.cascaded r w.headers cluster ++ [cluster] := by
  rw [click_snd hr h, ClickOutcome.toggled, List.map_append, List.map_map]
  exact congrArg (· ++ [cluster]) (List.map_id _)

theorem refolded_click (hr : r.Separate) (d : Drawing) (w : Wiring) (link : NodeId) :
    Refolded r d (d.click r w link).1 := by
  rcases h : d.target? r w link with _ | ⟨cluster, container⟩
  · rw [click_of_target?_eq_none h]
    exact .refl r d
  · rw [click_fst hr h]
    exact (refolded_setVisibilities hr d _ _).trans (refolded_setVisibility hr _ _ _ _)

/-- The flag `collapsed` after a click: that of the container is flipped. -/
theorem collapsed_click (hr : r.Separate) {d : Drawing} (hd : d.Wired w) {link : NodeId}
    {cluster : String} {container : NodeId}
    (h : d.target? r w link = some (cluster, container)) (e : NodeId) :
    (d.click r w link).1.hasClass e r.collapsedClass =
      if container = e then !(d.hasClass e r.collapsedClass)
      else d.hasClass e r.collapsedClass := by
  have hcascade := refolded_setVisibilities hr d (d.hasClass container r.collapsedClass)
    (d.cascaded r w.headers cluster)
  rw [click_fst hr h, collapsed_setVisibility hr (hd.parents.congr hcascade.bare),
    collapsed_setVisibilities hr hd.parents, hcascade.clusterMembers_eq hr]
  by_cases he : container = e
  · subst he
    rw [if_pos ⟨rfl, hd.target_mem h⟩, if_pos rfl]
  · rw [if_neg fun h => he (Option.some_inj.mp h.1), if_neg he]

/-- The flag `hidden` after a click: the clicked cluster counts first, then the last of the
clusters below that writes it. -/
theorem hidden_click (hr : r.Separate) {d : Drawing} (hd : d.Wired w) {link : NodeId}
    {cluster : String} {container : NodeId}
    (h : d.target? r w link = some (cluster, container)) (e : NodeId) :
    (d.click r w link).1.hasClass e r.hiddenClass =
      (d.writtenFlag r cluster (some container) (d.hasClass container r.collapsedClass) e).getD
        (((d.cascaded r w.headers cluster).reverse.findSome? fun sub =>
          d.writtenFlag r sub none (d.hasClass container r.collapsedClass) e).getD
            (d.hasClass e r.hiddenClass)) := by
  have hcascade := refolded_setVisibilities hr d (d.hasClass container r.collapsedClass)
    (d.cascaded r w.headers cluster)
  rw [click_fst hr h, hidden_setVisibility hr (hd.parents.congr hcascade.bare),
    hidden_setVisibilities hr hd.parents, hcascade.writtenFlag_eq hr]

/-! ### Runs of clicks -/

/-- The drawing after a run of clicks. -/
def afterClicks (d : Drawing) (r : FoldRules) (w : Wiring) (links : List NodeId) : Drawing :=
  links.foldl (fun d link => (d.click r w link).1) d

theorem afterClicks_cons (d : Drawing) (r : FoldRules) (w : Wiring) (link : NodeId)
    (links : List NodeId) : d.afterClicks r w (link :: links) =
      (d.click r w link).1.afterClicks r w links :=
  List.foldl_cons ..

theorem refolded_afterClicks (hr : r.Separate) (d : Drawing) (w : Wiring) (links : List NodeId) :
    Refolded r d (d.afterClicks r w links) :=
  Refolded.foldl (fun d link => refolded_click hr d w link) d links

end Drawing
end GraphFolding
