/-
Closed formulas for the two flags.

What a call or a click writes into a node can be told from the drawing before it, however the
members, placeholder edges and frames of the clusters overlap:

* `Drawing.afterCalls`, `hasClass_afterCalls` — of several calls that show or hide one cluster
  for one trigger, the last one counts;
* `hidden_setVisibility_eq`, `flags_setVisibility` — the two flags after one call;
* `findSome?_writtenFlag` — of the clusters of a cascade, the last one that touches a node counts;
* `flags_click` — the two flags after one click, and what the click reports.
-/
import GraphFolding.Proofs.Commuting
import GraphFolding.Proofs.FoldActions
import GraphFolding.Proofs.Territory
namespace GraphFolding.Drawing

variable {r : FoldRules} {w : Wiring}

/-! ### Calls one after the other -/

/-- A cluster shown or hidden several times for one trigger. -/
def afterCalls (d : Drawing) (r : FoldRules) (cluster : String) (trigger : Option NodeId)
    (directions : List Bool) : Drawing :=
  directions.foldl (fun d visible => (d.setVisibility r cluster trigger visible).1) d

/-- The second of two calls for one cluster and one trigger writes whatever the first one
wrote. -/
theorem hasClass_setVisibility_setVisibility (hr : r.Separate) {d : Drawing}
    (hd : d.ParentsAreElements) (cluster : String) (trigger : Option NodeId)
    (before visible : Bool) (e : NodeId) (u : String) :
    ((d.setVisibility r cluster trigger before).1.setVisibility r cluster trigger
      visible).1.hasClass e u = (d.setVisibility r cluster trigger visible).1.hasClass e u := by
  have hstep := refolded_setVisibility hr d cluster trigger before
  rw [hasClass_setVisibility hr (hd.congr hstep.bare), hasClass_setVisibility hr hd,
    hstep.clusterMembers_eq hr, hstep.clusterMembers_eq hr, hstep.clusterFrame?_eq hr,
    hasClass_setVisibility hr hd]
  -- Where the second call writes nothing, the first one has written nothing.
  by_cases hp : e ∈ d.clusterMembers r (r.placeholderFor cluster) ∧ u = r.hiddenClass
  · rw [if_pos hp, if_pos hp]
  · by_cases hm : e ∈ d.clusterMembers r cluster ∧ u = r.markOf trigger e
    · rw [if_neg hp, if_pos hm, if_neg hp, if_pos hm]
    · by_cases hf : d.clusterFrame? r cluster = some e ∧ u = r.hiddenClass
      · simp only [if_neg hp, if_neg hm, if_pos hf]
      · simp only [if_neg hp, if_neg hm, if_neg hf]

/-- Of several calls for one cluster and one trigger, the last one counts. -/
theorem hasClass_afterCalls (hr : r.Separate) {cluster : String} {trigger : Option NodeId}
    {visible : Bool} {earlier : List Bool} : ∀ {d : Drawing}, d.ParentsAreElements →
    ∀ (e : NodeId) (u : String),
    (d.afterCalls r cluster trigger (earlier ++ [visible])).hasClass e u =
      (d.setVisibility r cluster trigger visible).1.hasClass e u := by
  induction earlier with
  | nil => exact fun _ _ _ => rfl
  | cons before earlier ih =>
    intro d hd e u
    have hstep := refolded_setVisibility hr d cluster trigger before
    rw [List.cons_append, afterCalls, List.foldl_cons, ← afterCalls, ih (hd.congr hstep.bare),
      hasClass_setVisibility_setVisibility hr hd]

/-! ### One call -/

/-- The flag `hidden` after a call: placeholder edges count first, then members and frame. -/
theorem hidden_setVisibility_eq (hr : r.Separate) {d : Drawing} (hd : d.ParentsAreElements)
    (cluster : String) (trigger : Option NodeId) (visible : Bool) (e : NodeId) :
    (d.setVisibility r cluster trigger visible).1.hasClass e r.hiddenClass =
      if e ∈ d.clusterMembers r (r.placeholderFor cluster) then trigger.isNone || visible
      else if (e ∈ d.clusterMembers r cluster ∧ trigger ≠ some e) ∨
        d.clusterFrame? r cluster = some e then !visible
      else d.hasClass e r.hiddenClass := by
  rw [hidden_setVisibility hr hd, writtenFlag]
  by_cases hp : e ∈ d.clusterMembers r (r.placeholderFor cluster)
  · rw [if_pos hp, if_pos hp, Option.getD_some]
  · rw [if_neg hp, if_neg hp]
    split <;> rfl

/-- The flags after a call.  In a drawing that was read, and wired and folded in any way since,
take the members, the placeholder edges and the frame of a cluster just before the call.  A
placeholder edge is hidden afterwards unless the call folds the cluster for a trigger; any other
member but the trigger, and the frame, is hidden if the call hides the cluster; every other node
keeps the flag.  The flag `collapsed` is written for a trigger among the members only.  After
several such calls all class words are those of the last one. -/
theorem flags_setVisibility {text : String} {source : Drawing}
    (hsource : ofString text = .ok source) (hr : r.Separate) (actions : List FoldAction)
    (cluster : String) (trigger : Option NodeId) (visible : Bool) :
    let d := source.afterActions r actions
    let after := (d.setVisibility r cluster trigger visible).1
    let members := d.clusterMembers r cluster
    let placeholders := d.clusterMembers r (r.placeholderFor cluster)
    let frame := d.clusterFrame? r cluster
    (∀ e, after.hasClass e r.hiddenClass =
      if e ∈ placeholders then trigger.isNone || visible
      else if (e ∈ members ∧ trigger ≠ some e) ∨ frame = some e then !visible
      else d.hasClass e r.hiddenClass) ∧
    (∀ e, after.hasClass e r.collapsedClass =
      if trigger = some e ∧ e ∈ members then !visible else d.hasClass e r.collapsedClass) ∧
    ∀ earlier e word,
      (d.afterCalls r cluster trigger (earlier ++ [visible])).hasClass e word =
        after.hasClass e word := by
  intro d after members placeholders frame
  have hd : d.ParentsAreElements :=
    (parentsAreElements_ofString hsource).congr (retouched_afterActions r actions source).bare
  exact ⟨hidden_setVisibility_eq hr hd cluster trigger visible,
    collapsed_setVisibility hr hd cluster trigger visible,
    fun _ => hasClass_afterCalls hr hd⟩

/-- A drawing whose clusters overlap, where containers are one level above their links.  The
first group is a member of `m` and of `m.n`, the frame of `m.n` and a placeholder edge of `m.o`;
the second one is a member and a placeholder edge of `m`. -/
def overlap : Drawing where
  nodes := #[⟨.element ⟨"svg", [], []⟩, none, [1, 7, 10]⟩,
    ⟨.element ⟨"g", [], [("class", "cluster")]⟩, some 0, [2, 4, 5, 6]⟩,
    ⟨.element ⟨"title", [], []⟩, some 1, [3]⟩, ⟨.text "cluster_n", some 2, []⟩,
    ⟨.element ⟨"a", [], [("href", "m"), ("target", "t")]⟩, some 1, []⟩,
    ⟨.element ⟨"a", [], [("href", "m.n"), ("target", "t")]⟩, some 1, []⟩,
    ⟨.element ⟨"a", [], [("href", "not_m.o")]⟩, some 1, []⟩,
    ⟨.element ⟨"g", [], []⟩, some 0, [8, 9]⟩,
    ⟨.element ⟨"a", [], [("href", "m")]⟩, some 7, []⟩,
    ⟨.element ⟨"a", [], [("href", "not_m")]⟩, some 7, []⟩,
    ⟨.element ⟨"g", [], []⟩, some 0, [11]⟩,
    ⟨.element ⟨"a", [], [("href", "m.o"), ("target", "t")]⟩, some 10, []⟩]
  root := 0
  prologue := []
  epilogue := []

/-- The drawing as text. -/
def overlapText : String :=
  "<svg><g class=\"cluster\"><title>cluster_n</title><a href=\"m\" target=\"t\"/>" ++
    "<a href=\"m.n\" target=\"t\"/><a href=\"not_m.o\"/></g>" ++
    "<g><a href=\"m\"/><a href=\"not_m\"/></g><g><a href=\"m.o\" target=\"t\"/></g></svg>"

theorem ofString_overlap : ofString overlapText = .ok overlap :=
  eq_ok_of_toOption (by decide +kernel)

/-- The rules for that drawing. -/
def overlapRules : FoldRules := { containerDepth := 1 }

theorem separate_overlapRules : overlapRules.Separate :=
  ⟨by decide, by decide, by decide, by decide, by decide, by decide⟩

/-- Folded into the first group, `m` shows the second one, which is a placeholder edge of it as
well as a member. -/
theorem flags_setVisibility_overlap :
    let d := overlap.afterActions overlapRules [.wire]
    let after := (d.setVisibility overlapRules "m" (some 1) false).1
    after.hasClass 1 "collapsed" = true ∧ after.hasClass 7 "hide" = false ∧
      (d.afterCalls overlapRules "m" (some 1) [false, true, false]).hasClass 7 "hide" = false := by
  intro d after
  have h := flags_setVisibility ofString_overlap separate_overlapRules [.wire] "m" (some 1) false
  have hshown : after.hasClass 7 "hide" = false := (h.1 7).trans (by decide +kernel)
  exact ⟨(h.2.1 1).trans (by decide +kernel), hshown,
    (h.2.2 [false, true] 7 "hide").trans hshown⟩

/-! ### One click -/

instance (d : Drawing) (r : FoldRules) (cluster : String) (e : NodeId) :
    Decidable (d.Touches r cluster e) :=
  inferInstanceAs (Decidable (_ ∨ _ ∨ _))

/-- Without a trigger, a cluster writes every node that it touches. -/
theorem writtenFlag_of_touches {d : Drawing} {cluster : String} {e : NodeId}
    (h : d.Touches r cluster e) (visible : Bool) :
    d.writtenFlag r cluster none visible e =
      some (decide (e ∈ d.clusterMembers r (r.placeholderFor cluster)) || !visible) := by
  rw [writtenFlag]
  by_cases hp : e ∈ d.clusterMembers r (r.placeholderFor cluster)
  · simp [hp]
  · have hmf : (e ∈ d.clusterMembers r cluster ∧ none ≠ some e) ∨
        d.clusterFrame? r cluster = some e := by
      rcases h with hm | hp' | hf
      · exact .inl ⟨hm, by simp⟩
      · exact absurd hp' hp
      · exact .inr hf
    rw [if_neg hp, if_pos hmf, decide_eq_false hp, Bool.false_or]

/-- Of several clusters, the first one that touches a node is the first one that writes it. -/
theorem findSome?_writtenFlag (d : Drawing) (r : FoldRules) (visible : Bool) (e : NodeId)
    (clusters : List String) :
    (clusters.findSome? fun cluster => d.writtenFlag r cluster none visible e) =
      (clusters.find? (d.Touches r · e)).map fun cluster =>
        decide (e ∈ d.clusterMembers r (r.placeholderFor cluster)) || !visible := by
  induction clusters with
  | nil => rfl
  | cons cluster clusters ih =>
    rw [List.findSome?_cons, List.find?_cons]
    by_cases h : d.Touches r cluster e
    · rw [writtenFlag_of_touches h, decide_eq_true h]
      rfl
    · rw [writtenFlag_eq_none h, decide_eq_false h]
      exact ih

/-- The flag `hidden` after a click: the clicked cluster counts first, and then the last cluster of
the cascade that touches the node. -/
theorem hidden_click_eq (hr : r.Separate) {d : Drawing} (hd : d.Wired w) {link : NodeId}
    {cluster : String} {container : NodeId}
    (h : d.target? r w link = some (cluster, container)) (e : NodeId) :
    let visible := d.hasClass container r.collapsedClass
    (d.click r w link).1.hasClass e r.hiddenClass =
      if e ∈ d.clusterMembers r (r.placeholderFor cluster) then visible
      else if (e ∈ d.clusterMembers r cluster ∧ e ≠ container) ∨
        d.clusterFrame? r cluster = some e then !visible
      else
        match ((d.cascaded r w.headers cluster).filter (d.Touches r · e)).getLast? with
        | some sub => decide (e ∈ d.clusterMembers r (r.placeholderFor sub)) || !visible
        | none => d.hasClass e r.hiddenClass := by
  intro visible
  have hne : some container ≠ some e ↔ e ≠ container := by
    rw [Ne, Option.some_inj, eq_comm]
  rw [hidden_click hr hd h, writtenFlag, findSome?_writtenFlag, List.getLast?_filter]
  simp only [hne, Option.isNone_some, Bool.false_or]
  by_cases hp : e ∈ d.clusterMembers r (r.placeholderFor cluster)
  · rw [if_pos hp, if_pos hp, Option.getD_some]
  · rw [if_neg hp, if_neg hp]
    by_cases hmf : (e ∈ d.clusterMembers r cluster ∧ e ≠ container) ∨
        d.clusterFrame? r cluster = some e
    · rw [if_pos hmf, if_pos hmf, Option.getD_some]
    · -- The clicked cluster leaves the node to the cascade.
      rw [if_neg hmf, if_neg hmf, Option.getD_none]
      rcases (d.cascaded r w.headers cluster).reverse.find? (d.Touches r · e) with _ | sub
      · rfl
      · rfl

/-- The effect of a click, with no assumption on the shape of the drawing.  In a drawing that was
read and wired, click a header after any run of clicks.  The click reports the flag `collapsed`
of its container, and the clusters of its cascade in the order of their headers, the clicked one
last.  A placeholder edge of the clicked cluster is hidden afterwards if the cluster is unfolded;
any other member but the container, and the frame, if it is folded.  A node that the clicked
cluster does not touch so is left to the last cluster of the cascade that touches it, which hides
it if it is a placeholder edge of that cluster or if the click folds.  All other nodes keep the
flag.  The flag `collapsed` of the container is flipped, and nothing else is changed. -/
theorem flags_click {text : String} {source : Drawing} (hsource : ofString text = .ok source)
    (hr : r.Separate) (links : List NodeId) {link container : NodeId} {cluster : String}
    (h : (source.wire r).1.target? r (source.wire r).2 link = some (cluster, container)) :
    let d := (source.wire r).1
    let w := (source.wire r).2
    let now := d.afterClicks r w links
    let after := (now.click r w link).1
    let outcome := (now.click r w link).2
    let visible := now.hasClass container r.collapsedClass
    let members := fun x => d.clusterMembers r x
    let placeholders := fun x => d.clusterMembers r (r.placeholderFor x)
    let frame := fun x => d.clusterFrame? r x
    let cascade := d.cascaded r w.headers cluster
    w.headers.Sublist d.anchors ∧
    outcome.expanded = some visible ∧ outcome.toggled = cascade ++ [cluster] ∧
    (∀ e, after.hasClass e r.hiddenClass =
      if e ∈ placeholders cluster then visible
      else if (e ∈ members cluster ∧ e ≠ container) ∨ frame cluster = some e then !visible
      else
        match (cascade.filter (d.Touches r · e)).getLast? with
        | some sub => decide (e ∈ placeholders sub) || !visible
        | none => now.hasClass e r.hiddenClass) ∧
    (∀ e, after.hasClass e r.collapsedClass =
      if container = e then !(now.hasClass e r.collapsedClass)
      else now.hasClass e r.collapsedClass) ∧
    Refolded r now after := by
  intro d w now after outcome visible members placeholders frame cascade
  have hrun : Refolded r d now := refolded_afterClicks hr d w links
  have hnow : now.Wired w := (wired_wire (parentsAreElements_ofString hsource) r).refold hrun
  have hnowTarget : now.target? r w link = some (cluster, container) :=
    (target?_eq hr hrun w link).trans h
  have hheaders : w.headers.Sublist d.anchors := by
    rw [headers_wire, anchors_eq (bare_wire source r)]
    exact List.filter_sublist
  refine ⟨hheaders, expanded_click hnowTarget, ?_, fun e => ?_,
    fun e => collapsed_click hr hnow hnowTarget e, refolded_click hr now w link⟩
  · rw [toggled_click hr hnowTarget, cascaded_eq hrun hr]
  · -- Clusters are looked up with the same result all along the run.
    rw [hidden_click_eq hr hnow hnowTarget, cascaded_eq hrun hr]
    simp only [Touches.refold hr hrun, hrun.clusterMembers_eq hr, hrun.clusterFrame?_eq hr]
    rfl

/-- Folding `m` hides the very container that it is folded into, since this is a placeholder edge
of `m.o` as well; a click on `m.o` before makes no difference. -/
theorem flags_click_overlap :
    let w := (overlap.wire overlapRules).2
    let now := (overlap.wire overlapRules).1.afterClicks overlapRules w [11]
    (now.click overlapRules w 4).2.toggled = ["m.n", "m.o", "m"] ∧
      (now.click overlapRules w 4).1.hasClass 1 "collapsed" = true ∧
      (now.click overlapRules w 4).1.hasClass 1 "hide" = true ∧
      (now.click overlapRules w 4).1.hasClass 7 "hide" = false := by
  intro w now
  have htarget : (overlap.wire overlapRules).1.target? overlapRules w 4 = some ("m", 1) := by
    decide +kernel
  obtain ⟨-, -, htoggled, hhidden, hcollapsed, -⟩ :=
    flags_click ofString_overlap separate_overlapRules [11] htarget
  exact ⟨htoggled.trans (by decide +kernel), (hcollapsed 1).trans (by decide +kernel),
    (hhidden 1).trans (by decide +kernel), (hhidden 7).trans (by decide +kernel)⟩

end GraphFolding.Drawing
