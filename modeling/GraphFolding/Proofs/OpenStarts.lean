/-
Drawings whose clusters all start open.

Wiring hides the placeholder edges and takes no mark away, so what a drawing shows when it is wired
depends on the marks that it brings along, as one does that was folded and written before:

* `Drawing.cluster?` — the cluster that wiring leaves a link with;
* `StartsOpen` — a wired drawing shows every cluster open, and a first click folds it;
* `LeavesOpen` — no mark in a drawing that is not wired yet stands against that;
* `leavesOpen_of_startsOpen`, `LeavesOpen.startsOpen` — the one implies the other;
* `startsOpen_of_unmarked` — a drawing without marks and stamps, as it comes from its layout;
* `startsOpen_iff_of_ofString` — drawings that were read.
-/
import GraphFolding.Proofs.LinkRoles
import GraphFolding.Proofs.Territory
namespace GraphFolding.Drawing

variable {d : Drawing} {r : FoldRules}

/-- The cluster that wiring leaves a link with: what it refers to, or what it had before. -/
def cluster? (d : Drawing) (r : FoldRules) (link : NodeId) : Option String :=
  (d.reference? r link).or (d.attribute? link r.clusterAttribute)

/-- A wired drawing shows the clusters of all headers open. -/
structure StartsOpen (d : Drawing) (r : FoldRules) (w : Wiring) : Prop where
  placeholders : ∀ c ∈ w.clusters d r, ∀ e ∈ d.clusterMembers r (r.placeholderFor c),
    d.hasClass e r.hiddenClass = true
  members : ∀ c ∈ w.clusters d r, ∀ e ∈ d.clusterMembers r c, e ∉ w.placeholders →
    d.hasClass e r.hiddenClass = false
  frame : ∀ c ∈ w.clusters d r, ∀ e ∈ d.clusterFrame? r c, d.hasClass e r.hiddenClass = false
  headers : ∀ link ∈ w.headers, ∀ e ∈ d.ancestor? link r.containerDepth,
    d.hasClass e r.collapsedClass = false
  firstClick : ∀ link cluster container, d.target? r w link = some (cluster, container) →
    (d.click r w link).2.expanded = some false ∧
      (d.click r w link).1.hasClass container r.collapsedClass = true

/-- The marks that a drawing brings along leave the clusters of its headers open. -/
structure LeavesOpen (d : Drawing) (r : FoldRules) (w : Wiring) (clusters : List String) :
    Prop where
  /-- Placeholder edges that are known by their clusters alone are not hidden by wiring. -/
  stamped : ∀ c ∈ clusters, ∀ link ∈ d.anchors, d.reference? r link = none →
    d.attribute? link r.clusterAttribute = some (r.placeholderFor c) →
      ∀ e ∈ d.ancestor? link r.containerDepth, e ∈ w.placeholders ∨ d.hasClass e r.hiddenClass = true
  members : ∀ c ∈ clusters, ∀ link ∈ d.anchors, d.cluster? r link = some c →
    ∀ e ∈ d.ancestor? link r.containerDepth, e ∉ w.placeholders →
      d.hasClass e r.hiddenClass = false
  frame : ∀ c ∈ clusters, ∀ e ∈ d.clusterFrame? r c,
    e ∉ w.placeholders ∧ d.hasClass e r.hiddenClass = false
  headers : ∀ link ∈ w.headers, ∀ e ∈ d.ancestor? link r.containerDepth,
    d.hasClass e r.collapsedClass = false

/-! ### Members, frames and marks of a wired drawing -/

theorem placeholders_wire (d : Drawing) (r : FoldRules) :
    (d.wire r).2.placeholders = d.placeholderContainers r := by
  rw [wire_eq]

theorem mem_clusterMembers_wire (hclass : r.clusterAttribute ≠ "class") {cluster : String}
    {e : NodeId} : e ∈ (d.wire r).1.clusterMembers r cluster ↔ ∃ link ∈ d.anchors,
      d.cluster? r link = some cluster ∧ d.ancestor? link r.containerDepth = some e := by
  rw [mem_clusterMembers, anchors_eq (bare_wire d r)]
  refine exists_congr fun link => and_congr_right fun hlink => ?_
  rw [attribute?_wire d r link hclass, if_pos ⟨hlink, rfl⟩, ancestor?_eq (bare_wire d r), cluster?]

/-- Frames are told by another word than the one that wiring switches on. -/
theorem clusterFrame?_wire (hr : r.Separate) (hd : d.ParentsAreElements) (cluster : String) :
    (d.wire r).1.clusterFrame? r cluster = d.clusterFrame? r cluster := by
  have hframes : ∀ e, (d.wire r).1.hasClass e r.frameClass = d.hasClass e r.frameClass := by
    intro e
    rw [hasClass_wire hr.hidden hr.cluster_ne_class hd,
      decide_eq_false fun h => hr.frame_ne_hidden h.1, Bool.or_false]
  have hbare := bare_wire d r
  simp only [clusterFrame?, elementsWithClass, root_eq hbare, descendants_eq hbare, hframes,
    descendantText?_eq hbare]

theorem hidden_wire (hr : r.Separate) (hd : d.ParentsAreElements) (e : NodeId) :
    (d.wire r).1.hasClass e r.hiddenClass =
      (d.hasClass e r.hiddenClass || decide (e ∈ (d.wire r).2.placeholders)) := by
  rw [hasClass_wire hr.hidden hr.cluster_ne_class hd, placeholders_wire]
  simp only [true_and]

theorem collapsed_wire (hr : r.Separate) (hd : d.ParentsAreElements) (e : NodeId) :
    (d.wire r).1.hasClass e r.collapsedClass = d.hasClass e r.collapsedClass := by
  rw [hasClass_wire hr.hidden hr.cluster_ne_class hd,
    decide_eq_false fun h => hr.hidden_ne_collapsed h.1.symm, Bool.or_false]

/-- The containers of links that refer to placeholder edges are hidden by wiring. -/
theorem mem_placeholders_of_reference? {c : String} {link e : NodeId} (hlink : link ∈ d.anchors)
    (href : d.reference? r link = some (r.placeholderFor c))
    (he : d.ancestor? link r.containerDepth = some e) : e ∈ (d.wire r).2.placeholders := by
  rw [placeholders_wire, mem_placeholderContainers]
  refine ⟨link, hlink, ?_, he⟩
  rw [refersToPlaceholder, href]
  exact isPlaceholder_placeholderFor r c

/-! ### Open starts -/

/-- A first click folds what has no mark of being folded. -/
theorem folds_of_not_collapsed (hr : r.Separate) {w : Wiring} (hd : d.Wired w) {link : NodeId}
    {cluster : String} {container : NodeId} (h : d.target? r w link = some (cluster, container))
    (hopen : d.hasClass container r.collapsedClass = false) :
    (d.click r w link).2.expanded = some false ∧
      (d.click r w link).1.hasClass container r.collapsedClass = true := by
  refine ⟨?_, ?_⟩
  · rw [expanded_click h, hopen]
  · rw [collapsed_click hr hd h, if_pos rfl, hopen, Bool.not_false]

section Wire

variable (hr : r.Separate) (hd : d.ParentsAreElements)
include hr hd

/-- A wired drawing that shows all clusters open was left open by the marks that it had before. -/
theorem leavesOpen_of_startsOpen (h : (d.wire r).1.StartsOpen r (d.wire r).2) :
    d.LeavesOpen r (d.wire r).2 ((d.wire r).2.clusters (d.wire r).1 r) := by
  have hhidden := hidden_wire hr hd
  refine ⟨?_, ?_, ?_, ?_⟩
  · intro c hc link hlink href hattribute e he
    have hmember : e ∈ (d.wire r).1.clusterMembers r (r.placeholderFor c) :=
      (mem_clusterMembers_wire hr.cluster_ne_class).mpr
        ⟨link, hlink, by rw [cluster?, href, hattribute, Option.none_or], he⟩
    have hhide := h.placeholders c hc e hmember
    rw [hhidden, Bool.or_eq_true, decide_eq_true_eq] at hhide
    exact hhide.symm
  · intro c hc link hlink hcluster e he hplaceholder
    have hshow := h.members c hc e
      ((mem_clusterMembers_wire hr.cluster_ne_class).mpr ⟨link, hlink, hcluster, he⟩) hplaceholder
    rw [hhidden, Bool.or_eq_false_iff] at hshow
    exact hshow.1
  · intro c hc e he
    have hshow := h.frame c hc e (by rwa [clusterFrame?_wire hr hd])
    rw [hhidden, Bool.or_eq_false_iff, decide_eq_false_iff_not] at hshow
    exact hshow.symm
  · intro link hlink e he
    rw [← collapsed_wire hr hd]
    exact h.headers link hlink e (by rwa [ancestor?_eq (bare_wire d r)])

/-- A drawing whose marks leave all clusters open shows them open once it is wired. -/
theorem LeavesOpen.startsOpen
    (h : d.LeavesOpen r (d.wire r).2 ((d.wire r).2.clusters (d.wire r).1 r)) :
    (d.wire r).1.StartsOpen r (d.wire r).2 := by
  have hhidden := hidden_wire hr hd
  have hheaders : ∀ link ∈ (d.wire r).2.headers,
      ∀ e ∈ (d.wire r).1.ancestor? link r.containerDepth,
        (d.wire r).1.hasClass e r.collapsedClass = false := by
    intro link hlink e he
    rw [collapsed_wire hr hd]
    exact h.headers link hlink e (by rwa [← ancestor?_eq (bare_wire d r)])
  refine ⟨?_, ?_, ?_, hheaders, ?_⟩
  · intro c hc e he
    obtain ⟨link, hlink, hcluster, hcontainer⟩ :=
      (mem_clusterMembers_wire hr.cluster_ne_class).mp he
    rw [hhidden, Bool.or_eq_true, decide_eq_true_eq]
    -- A link that refers to something has it as its cluster, and is hidden for it.
    rcases href : d.reference? r link with _ | reference
    · rw [cluster?, href, Option.none_or] at hcluster
      exact (h.stamped c hc link hlink href hcluster e hcontainer).symm
    · rw [cluster?, href, Option.some_or] at hcluster
      exact .inr (mem_placeholders_of_reference? hlink (href.trans hcluster) hcontainer)
  · intro c hc e he hplaceholder
    obtain ⟨link, hlink, hcluster, hcontainer⟩ :=
      (mem_clusterMembers_wire hr.cluster_ne_class).mp he
    rw [hhidden, h.members c hc link hlink hcluster e hcontainer hplaceholder,
      decide_eq_false hplaceholder, Bool.or_false]
  · intro c hc e he
    rw [clusterFrame?_wire hr hd] at he
    obtain ⟨hplaceholder, hshown⟩ := h.frame c hc e he
    rw [hhidden, hshown, decide_eq_false hplaceholder, Bool.or_false]
  · intro link cluster container htarget
    obtain ⟨hlink, -, hcontainer⟩ := target?_eq_some.mp htarget
    exact folds_of_not_collapsed hr (wired_wire hd r) htarget (hheaders link hlink _ hcontainer)

/-- A wired drawing shows all clusters open exactly if the marks that it had before leave them
open. -/
theorem startsOpen_wire : (d.wire r).1.StartsOpen r (d.wire r).2 ↔
    d.LeavesOpen r (d.wire r).2 ((d.wire r).2.clusters (d.wire r).1 r) :=
  ⟨leavesOpen_of_startsOpen hr hd, LeavesOpen.startsOpen hr hd⟩

end Wire

/-- Drawings that were never folded start open: nothing in them is marked, no link has a cluster
that it does not refer to, and the placeholder edges are no frames. -/
theorem startsOpen_of_unmarked (hr : r.Separate) (hd : d.ParentsAreElements)
    (hhide : ∀ e, d.hasClass e r.hiddenClass = false)
    (hcollapsed : ∀ e, d.hasClass e r.collapsedClass = false)
    (hstamps : ∀ link ∈ d.anchors, d.reference? r link = none →
      d.attribute? link r.clusterAttribute = none)
    (hframes : ∀ e ∈ (d.wire r).2.placeholders, d.hasClass e r.frameClass = false) :
    (d.wire r).1.StartsOpen r (d.wire r).2 := by
  refine LeavesOpen.startsOpen hr hd
    ⟨?_, fun _ _ _ _ _ e _ _ => hhide e, ?_, fun _ _ e _ => hcollapsed e⟩
  · intro c _ link hlink href hattribute
    rw [hstamps link hlink href] at hattribute
    exact absurd hattribute (Option.some_ne_none _).symm
  · intro c _ e he
    refine ⟨fun hplaceholder => ?_, hhide e⟩
    exact Bool.noConfusion ((hasClass_of_clusterFrame? he).symm.trans (hframes e hplaceholder))

/-- Whether every cluster starts open is a matter of the marks that a drawing was read with: all
clusters are shown open, and a first click on any header that can be clicked folds its cluster,
exactly if no container of a header is marked as collapsed, no frame and no member is hidden that
wiring does not hide, and the placeholder edges that wiring does not find, because they are stamped
and refer to nothing, are hidden already. -/
theorem startsOpen_iff_of_ofString {text : String} {source : Drawing}
    (hsource : ofString text = .ok source) (hr : r.Separate) :
    let start := (source.wire r).1
    let w := (source.wire r).2
    start.StartsOpen r w ↔ source.LeavesOpen r w (w.clusters start r) :=
  startsOpen_wire hr (parentsAreElements_ofString hsource)

theorem startsOpen_nestedPair : (nestedPair.wire {}).1.StartsOpen {} (nestedPair.wire {}).2 :=
  (startsOpen_iff_of_ofString ofString_nestedPair FoldRules.separate_default).mpr
    ⟨by decide +kernel, by decide +kernel, by decide +kernel, by decide +kernel⟩

/-- A cluster that was folded into one of its members, as it is written. -/
def foldedMember : Drawing where
  nodes := #[⟨.element ⟨"svg", [], []⟩, none, [1, 4]⟩,
    ⟨.element ⟨"g", [], [("class", "collapsed")]⟩, some 0, [2]⟩,
    ⟨.element ⟨"g", [], []⟩, some 1, [3]⟩,
    ⟨.element ⟨"a", [], [("href", "m"), ("target", "t")]⟩, some 2, []⟩,
    ⟨.element ⟨"g", [], [("class", "hide")]⟩, some 0, [5]⟩,
    ⟨.element ⟨"g", [], []⟩, some 4, [6]⟩,
    ⟨.element ⟨"a", [], [("href", "m")]⟩, some 5, []⟩]
  root := 0
  prologue := []
  epilogue := []

/-- The drawing as text. -/
def foldedMemberText : String :=
  "<svg><g class=\"collapsed\"><g><a href=\"m\" target=\"t\"/></g></g>" ++
    "<g class=\"hide\"><g><a href=\"m\"/></g></g></svg>"

/-- A folded cluster that is read again does not start open. -/
theorem not_forall_startsOpen : ¬∀ text source, ofString text = .ok source →
    (source.wire {}).1.StartsOpen {} (source.wire {}).2 := by
  intro h
  have hread : ofString foldedMemberText = .ok foldedMember := eq_ok_of_toOption (by decide +kernel)
  have hopen := (h foldedMemberText foldedMember hread).headers 3 (by decide +kernel) 1
    (by decide +kernel)
  exact absurd hopen (by decide +kernel)

end GraphFolding.Drawing
