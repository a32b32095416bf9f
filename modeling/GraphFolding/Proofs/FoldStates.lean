/-
Three states of a cluster: expanded, collapsed into one container, or hidden inside a
collapsed cluster.

The states are recorded from what clicks report, and nothing else; the drawing shows them
as long as nobody clicks on what cannot be seen.

* `FoldState`, `recordClick`, `foldStates` — the states, after a click and after a run;
* `Drawing.Shows` — a drawing shows a cluster in a state;
* `Drawing.Consistent` — it shows every cluster in its state, and exactly what lies inside
  a collapsed cluster is hidden;
* `consistent_click`, `consistent_afterClicks` — kept by one click, and by a run;
* `consistent_of_ofString` — drawings that were read.
-/
import GraphFolding.Proofs.Grafting
import GraphFolding.Proofs.Territory
import GraphFolding.Proofs.WiringEffect
namespace GraphFolding

/-- The state of a cluster. -/
inductive FoldState where
  | expanded
  /-- Folded into the container that was clicked. -/
  | collapsed (trigger : NodeId)
  /-- Inside a collapsed cluster. -/
  | hidden
  deriving DecidableEq, Repr

namespace FoldState

/-- Whether a member of a cluster is hidden in a state. -/
def hidesMember : FoldState → NodeId → Bool
  | expanded, _ => false
  | collapsed trigger, e => e ≠ trigger
  | hidden, _ => true

/-- Whether the frame of a cluster is hidden in a state. -/
def hidesFrame : FoldState → Bool
  | expanded => false
  | _ => true

/-- Whether the placeholder edges of a cluster are hidden in a state. -/
def hidesPlaceholders : FoldState → Bool
  | collapsed _ => false
  | _ => true

/-- Whether a cluster is collapsed itself. -/
def IsCollapsed (s : FoldState) : Prop := ∃ trigger, s = collapsed trigger

end FoldState

/-- The states after a click that reported what it did: the last cluster named is the one
that was clicked, into or out of the container given. -/
def recordClick (r : FoldRules) (container : Option NodeId) (o : ClickOutcome)
    (states : String → FoldState) : String → FoldState :=
  match o.expanded, o.toggled.getLast?, container with
  | some visible, some clicked, some container => fun cluster =>
    if cluster = clicked then if visible then .expanded else .collapsed container
    else if r.isBelow cluster clicked then if visible then .expanded else .hidden
    else states cluster
  | _, _, _ => states

namespace Drawing

variable {r : FoldRules} {w : Wiring}

/-- The states of the clusters after a run of clicks. -/
def foldStates (d : Drawing) (r : FoldRules) (w : Wiring) (states : String → FoldState) :
    List NodeId → String → FoldState
  | [] => states
  | link :: links => (d.click r w link).1.foldStates r w
      (recordClick r (d.ancestor? link r.containerDepth) (d.click r w link).2 states) links

/-- Whether every click of a run that acts on a container acts on one in sight. -/
def InSight (d : Drawing) (r : FoldRules) (w : Wiring) : List NodeId → Prop
  | [] => True
  | link :: links =>
    (∀ target ∈ d.target? r w link, d.hasClass target.2 r.hiddenClass = false) ∧
      (d.click r w link).1.InSight r w links

instance decidableInSight (r : FoldRules) (w : Wiring) :
    ∀ (d : Drawing) (links : List NodeId), Decidable (d.InSight r w links)
  | _, [] => .isTrue trivial
  | d, link :: links =>
    have := decidableInSight r w (d.click r w link).1 links
    inferInstanceAs (Decidable (_ ∧ _))

/-- A drawing shows a cluster in a state. -/
structure Shows (d : Drawing) (r : FoldRules) (w : Wiring) (cluster : String)
    (s : FoldState) : Prop where
  members : ∀ e ∈ d.clusterMembers r cluster, d.hasClass e r.hiddenClass = s.hidesMember e
  frame : ∀ e, d.clusterFrame? r cluster = some e → d.hasClass e r.hiddenClass = s.hidesFrame
  placeholders : ∀ e ∈ d.clusterMembers r (r.placeholderFor cluster),
    d.hasClass e r.hiddenClass = s.hidesPlaceholders
  /-- What a cluster is folded into is the container of one of its headers, and marked. -/
  trigger : ∀ t, s = .collapsed t → (∃ link, d.target? r w link = some (cluster, t)) ∧
    d.hasClass t r.collapsedClass = true

/-- A drawing shows all clusters of headers in their states, and hidden are exactly those
inside collapsed ones. -/
structure Consistent (d : Drawing) (r : FoldRules) (w : Wiring)
    (states : String → FoldState) : Prop where
  shows : ∀ c ∈ w.clusters d r, d.Shows r w c (states c)
  nested : ∀ c ∈ w.clusters d r, states c = .hidden ↔
    ∃ above ∈ w.clusters d r, r.isBelow c above = true ∧ (states above).IsCollapsed

/-- A wired drawing with nothing folded: of all that belongs to clusters of headers, the
placeholder edges are hidden and nothing else. -/
structure Unfolded (d : Drawing) (r : FoldRules) (w : Wiring) : Prop where
  members : ∀ c ∈ w.clusters d r, ∀ e ∈ d.clusterMembers r c,
    d.hasClass e r.hiddenClass = false
  frame : ∀ c ∈ w.clusters d r, ∀ e ∈ d.clusterFrame? r c, d.hasClass e r.hiddenClass = false
  placeholders : ∀ c ∈ w.clusters d r, ∀ e ∈ d.clusterMembers r (r.placeholderFor c),
    d.hasClass e r.hiddenClass = true

instance (d : Drawing) (r : FoldRules) (w : Wiring) : Decidable (d.Unfolded r w) :=
  decidable_of_iff (_ ∧ _ ∧ _) ⟨fun h => ⟨h.1, h.2.1, h.2.2⟩, fun h => ⟨h.1, h.2, h.3⟩⟩

theorem Unfolded.consistent {d : Drawing} (hd : d.Unfolded r w) :
    d.Consistent r w fun _ => .expanded where
  shows c hc :=
    { members := hd.members c hc
      frame := hd.frame c hc
      placeholders := hd.placeholders c hc
      trigger := fun t h => FoldState.noConfusion h }
  nested c _ := by
    constructor
    · intro h
      exact FoldState.noConfusion h
    · rintro ⟨_, _, _, t, h⟩
      exact FoldState.noConfusion h

/-! ### One click -/

theorem recordClick_of_target?_eq_none {d : Drawing} {link : NodeId}
    (h : d.target? r w link = none) (container : Option NodeId)
    (states : String → FoldState) :
    recordClick r container (d.click r w link).2 states = states := by
  rw [click_of_target?_eq_none h]
  rfl

theorem recordClick_of_target?_eq_some (hr : r.Separate) {d : Drawing} {link : NodeId}
    {clicked : String} {container : NodeId}
    (h : d.target? r w link = some (clicked, container)) (states : String → FoldState)
    (cluster : String) :
    recordClick r (d.ancestor? link r.containerDepth) (d.click r w link).2 states cluster =
      if cluster = clicked then
        if d.hasClass container r.collapsedClass then .expanded else .collapsed container
      else if r.isBelow cluster clicked then
        if d.hasClass container r.collapsedClass then .expanded else .hidden
      else states cluster := by
  unfold recordClick
  simp only [expanded_click h, toggled_click hr h, List.getLast?_concat,
    (target?_eq_some.mp h).2.2]

/-- The drawing after a click on a header in sight shows every cluster in its new state. -/
theorem shows_click (hr : r.Separate) {d : Drawing} (hd : d.Wired w) (ho : d.Orderly r w)
    {states : String → FoldState} {link : NodeId} {clicked : String} {container : NodeId}
    (h : d.target? r w link = some (clicked, container))
    (hsight : d.hasClass container r.hiddenClass = false) {c : String}
    (hc : c ∈ w.clusters d r) (hshows : d.Shows r w c (states c)) :
    (d.click r w link).1.Shows r w c
      (recordClick r (d.ancestor? link r.containerDepth) (d.click r w link).2 states c) := by
  have hstep := refolded_click hr d w link
  have hcontainer := hd.target_mem h
  have hwrite := fun e => hidden_click_of_touches hr hd ho h hc (e := e)
  have hcollapsed := collapsed_click hr hd h
  rw [recordClick_of_target?_eq_some hr h]
  -- Which way the click goes is settled by the container before, whatever is written.
  generalize hv : d.hasClass container r.collapsedClass = v at hwrite hcollapsed ⊢
  by_cases hcc : c = clicked
  · -- The clicked cluster: everything but the container is written.
    subst hcc
    simp only [if_true] at hwrite ⊢
    refine ⟨fun e he => ?_, fun e he => ?_, fun e he => ?_, fun t ht => ?_⟩
    · rw [hstep.clusterMembers_eq hr] at he
      rw [hwrite e (.inl he)]
      by_cases hec : container = e
      · subst hec
        rw [ho.writtenFlag_trigger hc he, Option.getD_none, hsight]
        cases v <;> simp [FoldState.hidesMember]
      · rw [ho.writtenFlag_member hc he (by simpa using hec)]
        cases v <;> simp [FoldState.hidesMember, Ne.symm hec]
    · rw [hstep.clusterFrame?_eq hr] at he
      rw [hwrite e (.inr (.inr he)), ho.writtenFlag_frame hc he]
      cases v <;> rfl
    · rw [hstep.clusterMembers_eq hr] at he
      rw [hwrite e (.inr (.inl he)), writtenFlag_placeholder he]
      cases v <;> rfl
    · cases v
      · obtain rfl : container = t := FoldState.collapsed.inj ht
        refine ⟨⟨link, (target?_eq hr hstep w link).trans h⟩, ?_⟩
        rw [hcollapsed, if_pos rfl, hv, Bool.not_false]
      · simp at ht
  · by_cases hbelow : r.isBelow c clicked = true
    · -- A cluster of the cascade is written altogether.
      simp only [if_neg hcc, if_pos hbelow] at hwrite ⊢
      refine ⟨fun e he => ?_, fun e he => ?_, fun e he => ?_, fun t ht => ?_⟩
      · rw [hstep.clusterMembers_eq hr] at he
        rw [hwrite e (.inl he), ho.writtenFlag_member hc he (by simp)]
        cases v <;> rfl
      · rw [hstep.clusterFrame?_eq hr] at he
        rw [hwrite e (.inr (.inr he)), ho.writtenFlag_frame hc he]
        cases v <;> rfl
      · rw [hstep.clusterMembers_eq hr] at he
        rw [hwrite e (.inr (.inl he)), writtenFlag_placeholder he]
        cases v <;> rfl
      · cases v <;> simp at ht
    · -- Any other cluster keeps its nodes.
      simp only [if_neg hcc, if_neg hbelow, Option.getD_none] at hwrite ⊢
      refine ⟨fun e he => ?_, fun e he => ?_, fun e he => ?_, fun t ht => ?_⟩
      · rw [hstep.clusterMembers_eq hr] at he
        rw [hwrite e (.inl he), hshows.members e he]
      · rw [hstep.clusterFrame?_eq hr] at he
        rw [hwrite e (.inr (.inr he)), hshows.frame e he]
      · rw [hstep.clusterMembers_eq hr] at he
        rw [hwrite e (.inr (.inl he)), hshows.placeholders e he]
      · obtain ⟨⟨l, hl⟩, hmark⟩ := hshows.trigger t ht
        refine ⟨⟨l, (target?_eq hr hstep w l).trans hl⟩, ?_⟩
        rw [hcollapsed, if_neg, hmark]
        rintro rfl
        exact hcc (ho.members_unique (hd.target_mem hl) hcontainer)

/-- A cluster with a member in sight lies in no collapsed cluster. -/
theorem Consistent.not_isCollapsed_above {d : Drawing} {states : String → FoldState}
    (hs : d.Consistent r w states) {c : String} (hc : c ∈ w.clusters d r) {e : NodeId}
    (he : e ∈ d.clusterMembers r c) (hsight : d.hasClass e r.hiddenClass = false) {above : String}
    (ha : above ∈ w.clusters d r) (hbelow : r.isBelow c above = true) :
    ¬(states above).IsCollapsed := by
  intro hcollapsed
  have hmember := (hs.shows c hc).members e he
  rw [(hs.nested c hc).mpr ⟨above, ha, hbelow, hcollapsed⟩, hsight] at hmember
  exact Bool.noConfusion hmember

/-- A click on a header in sight keeps states and drawing together. -/
theorem consistent_click (hr : r.Separate)
    (hborder : ClusterPath.BorderFree (ClusterPath.seam r.nesting r.separator)) {d : Drawing}
    (hd : d.Wired w) (ho : d.Orderly r w) {states : String → FoldState}
    (hs : d.Consistent r w states) {link : NodeId} {clicked : String} {container : NodeId}
    (h : d.target? r w link = some (clicked, container))
    (hsight : d.hasClass container r.hiddenClass = false) :
    (d.click r w link).1.Consistent r w
      (recordClick r (d.ancestor? link r.containerDepth) (d.click r w link).2 states) := by
  have hclusters := clusters_eq hr (refolded_click hr d w link) w
  have hclicked := clicked_mem_clusters h
  -- The clicked cluster is in sight, so nothing above it is collapsed.
  have habove : ∀ a ∈ w.clusters d r, r.isBelow clicked a = true → ¬(states a).IsCollapsed :=
    fun a ha => hs.not_isCollapsed_above hclicked (hd.target_mem h) hsight ha
  refine ⟨fun c hc => ?_, fun c hc => ?_⟩
  · rw [hclusters] at hc
    exact shows_click hr hd ho h hsight hc (hs.shows c hc)
  rw [hclusters] at hc ⊢
  simp only [recordClick_of_target?_eq_some hr h]
  generalize d.hasClass container r.collapsedClass = v
  constructor
  · intro hidden
    by_cases hcc : c = clicked
    · rw [if_pos hcc] at hidden
      cases v <;> simp at hidden
    by_cases hbelow : r.isBelow c clicked = true
    · -- Hidden by this very click.
      rw [if_neg hcc, if_pos hbelow] at hidden
      cases v
      · exact ⟨clicked, hclicked, hbelow, container, by simp⟩
      · simp at hidden
    · rw [if_neg hcc, if_neg hbelow] at hidden
      obtain ⟨a, ha, hca, hcollapsed⟩ := (hs.nested c hc).mp hidden
      have hane : a ≠ clicked := fun h => hbelow (h ▸ hca)
      have habelow : ¬r.isBelow a clicked = true := fun h =>
        hbelow (ClusterPath.isBelow_trans hca h)
      refine ⟨a, ha, hca, ?_⟩
      rwa [if_neg hane, if_neg habelow]
  · rintro ⟨a, ha, hca, hcollapsed⟩
    by_cases hane : a = clicked
    · -- The clicked cluster was collapsed just now, and `c` lies below it.
      subst hane
      have hcc : c ≠ a := by
        rintro rfl
        rw [FoldRules.isBelow, ClusterPath.isBelow_irrefl] at hca
        exact Bool.noConfusion hca
      rw [if_pos rfl] at hcollapsed
      rw [if_neg hcc, if_pos hca]
      cases v
      · rfl
      · obtain ⟨t, ht⟩ := hcollapsed
        simp at ht
    by_cases habelow : r.isBelow a clicked = true
    · rw [if_neg hane, if_pos habelow] at hcollapsed
      obtain ⟨t, ht⟩ := hcollapsed
      cases v <;> simp at ht
    · rw [if_neg hane, if_neg habelow] at hcollapsed
      have hcc : c ≠ clicked := fun h => habove a ha (h ▸ hca) hcollapsed
      -- Two clusters above `c` are nested, and neither way is left.
      have hcbelow : ¬r.isBelow c clicked = true := by
        intro hcbelow
        rcases ClusterPath.isBelow_chain hborder hca hcbelow hane with h | h
        · exact habelow h
        · exact habove a ha h hcollapsed
      rw [if_neg hcc, if_neg hcbelow]
      exact (hs.nested c hc).mpr ⟨a, ha, hca, hcollapsed⟩

/-! ### Runs -/

/-- States and drawing stay together over a run of clicks on what is in sight. -/
theorem consistent_afterClicks (hr : r.Separate)
    (hborder : ClusterPath.BorderFree (ClusterPath.seam r.nesting r.separator))
    {links : List NodeId} : ∀ {d : Drawing} {states : String → FoldState}, d.Wired w →
    d.Orderly r w → d.Consistent r w states → d.InSight r w links →
    (d.afterClicks r w links).Consistent r w (d.foldStates r w states links) := by
  induction links with
  | nil => exact fun _ _ hs _ => hs
  | cons link links ih =>
    intro d states hd ho hs hsight
    have hstep := refolded_click hr d w link
    rw [afterClicks_cons, foldStates]
    refine ih (hd.refold hstep) (ho.refold hr hstep) ?_ hsight.2
    rcases h : d.target? r w link with _ | ⟨clicked, container⟩
    · rw [recordClick_of_target?_eq_none h, click_of_target?_eq_none h]
      exact hs
    · exact consistent_click hr hborder hd ho hs h (hsight.1 (clicked, container) h)

/-- Folding has three states.  In a drawing that was read and wired, whose clusters share no
nodes and start unfolded, record for every cluster of a header whether it is expanded,
collapsed or hidden, by what the clicks of a run report.  As long as only what is in sight is
clicked, the drawing shows every cluster in its state, and exactly the clusters inside a
collapsed one are hidden. -/
theorem consistent_of_ofString {text : String} {d : Drawing} (hd : ofString text = .ok d)
    (hr : r.Separate)
    (hnesting : r.nesting = .byText ∨ r.nesting = .bySegment ∧ r.separator.length = 1)
    (ho : (d.wire r).1.Orderly r (d.wire r).2) (hu : (d.wire r).1.Unfolded r (d.wire r).2)
    (links : List NodeId) (hsight : (d.wire r).1.InSight r (d.wire r).2 links) :
    ((d.wire r).1.afterClicks r (d.wire r).2 links).Consistent r (d.wire r).2
      ((d.wire r).1.foldStates r (d.wire r).2 (fun _ => .expanded) links) :=
  consistent_afterClicks hr (ClusterPath.borderFree_seam hnesting)
    (wired_wire (parentsAreElements_ofString hd) r) ho hu.consistent hsight

theorem consistent_nestedPair :
    (nestedPair.wire {}).1.Orderly {} (nestedPair.wire {}).2 ∧
      (nestedPair.wire {}).1.Unfolded {} (nestedPair.wire {}).2 ∧
      (nestedPair.wire {}).1.InSight {} (nestedPair.wire {}).2 [6, 3, 9, 3] ∧
      ((nestedPair.wire {}).1.afterClicks {} (nestedPair.wire {}).2 [6, 3, 9, 3]).Consistent {}
        (nestedPair.wire {}).2 ((nestedPair.wire {}).1.foldStates {} (nestedPair.wire {}).2
          (fun _ => .expanded) [6, 3, 9, 3]) := by
  have ho : (nestedPair.wire {}).1.Orderly {} (nestedPair.wire {}).2 := by decide +kernel
  have hu : (nestedPair.wire {}).1.Unfolded {} (nestedPair.wire {}).2 := by decide +kernel
  have hsight : (nestedPair.wire {}).1.InSight {} (nestedPair.wire {}).2 [6, 3, 9, 3] := by
    decide +kernel
  exact ⟨ho, hu, hsight, consistent_of_ofString ofString_nestedPair FoldRules.separate_default
    (.inr ⟨rfl, by decide⟩) ho hu _ hsight⟩

end Drawing
end GraphFolding
