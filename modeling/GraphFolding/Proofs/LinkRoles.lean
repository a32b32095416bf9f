/-
What a wiring knows, and what a wired drawing shows of it.

Wiring looks at every link once.  A link with a target is a header and any other one is silent;
either is stamped with the cluster that it refers to, and the placeholder edges are hidden.
Clicks write class lists only, so the links stay what they are:

* `Wiring.SortsLinks` — the lists of a wiring are the links of a drawing, each in one of them;
* `SortsLinks.congr` — links are sorted in the same way wherever they have the same targets;
* `hasClass_wire`, `sortsLinks_wire` — what wiring hides, and how it sorts;
* `wire_of_ofString` — drawings that were read: how links are sorted, stamped and hidden, and
  that no run of clicks changes their roles and clusters.
-/
import GraphFolding.Proofs.Forest
import GraphFolding.Proofs.TakingTurns
import Mathlib.Data.List.Basic
namespace GraphFolding

open ClassList (IsWord)

namespace Wiring

variable {w : Wiring} {d d' : Drawing} {r : FoldRules}

/-- A wiring sorts the links of a drawing: its two lists are disjoint and merge, in the order of
the drawing, to the links, each of which comes once; the headers are those with a target. -/
structure SortsLinks (w : Wiring) (d : Drawing) (r : FoldRules) : Prop where
  headers : w.headers = d.anchors.filter fun link => (d.attribute? link r.targetAttribute).isSome
  silent : w.silent = d.anchors.filter fun link => (d.attribute? link r.targetAttribute).isNone
  disjoint : w.headers.Disjoint w.silent
  once : (w.headers ++ w.silent).Nodup
  merged : (w.headers ++ w.silent).Perm d.anchors
  role : ∀ link, w.role link =
    if link ∈ d.anchors then
      some (if (d.attribute? link r.targetAttribute).isSome then .header else .silent)
    else none

/-- The two lists are all that has to be known. -/
theorem sortsLinks_of_filter (hanchors : d.anchors.Nodup)
    (hheaders : w.headers =
      d.anchors.filter fun link => (d.attribute? link r.targetAttribute).isSome)
    (hsilent : w.silent =
      d.anchors.filter fun link => (d.attribute? link r.targetAttribute).isNone) :
    w.SortsLinks d r := by
  have hmerged : (w.headers ++ w.silent).Perm d.anchors := by
    rw [hheaders, hsilent]
    simp only [← Option.not_isSome]
    exact List.filter_append_perm _ _
  have honce : (w.headers ++ w.silent).Nodup := hmerged.nodup_iff.mpr hanchors
  refine ⟨hheaders, hsilent, List.disjoint_of_nodup_append honce, honce, hmerged, fun link => ?_⟩
  rw [role_eq, hheaders, hsilent]
  by_cases hlink : link ∈ d.anchors
  · rcases htarget : d.attribute? link r.targetAttribute with _ | target <;> simp [hlink, htarget]
  · simp [hlink]

/-- Where the same links have the same targets, they are sorted in the same way. -/
theorem SortsLinks.congr (h : w.SortsLinks d r) (hanchors : d'.anchors = d.anchors)
    (htarget : ∀ link, d'.attribute? link r.targetAttribute =
      d.attribute? link r.targetAttribute) : w.SortsLinks d' r := by
  refine sortsLinks_of_filter ?_ ?_ ?_
  · rw [hanchors]
    exact h.merged.nodup_iff.mp h.once
  · simp only [hanchors, htarget, h.headers]
  · simp only [hanchors, htarget, h.silent]

end Wiring

namespace Drawing

variable {d : Drawing} {r : FoldRules}

/-! ### One wiring -/

/-- Of all class words, wiring switches on the one of what is hidden, in the containers of the
placeholder edges. -/
theorem hasClass_wire (hhidden : IsWord r.hiddenClass) (hclass : r.clusterAttribute ≠ "class")
    (hd : d.ParentsAreElements) (e : NodeId) (word : String) :
    (d.wire r).1.hasClass e word =
      (d.hasClass e word || decide (word = r.hiddenClass ∧ e ∈ d.placeholderContainers r)) := by
  -- Hiding the containers is what a call does that hides members without a trigger.
  have hwrites : (d.wire r).1 = (d.stampAll r d.anchors).toggleElements r none false
      (d.placeholderContainers r) := by
    rw [wire_eq, toggleElements_eq_writeAll]
    rfl
  have hmark : r.markOf none e = r.hiddenClass := if_neg (by simp)
  have hbefore : (d.stampAll r d.anchors).hasClass e word = d.hasClass e word := by
    rw [hasClass, class_stampAll hclass, hasClass]
  rw [hwrites, hasClass_toggleElements_any, hmark, ClassList.holdsAfter_of_isWord hhidden, hbefore]
  · by_cases he : e ∈ d.placeholderContainers r <;> by_cases hword : word = r.hiddenClass <;>
      simp [he, hword]
  · intro id hid
    rw [isElement_eq (bare_stampAll r d.anchors d)]
    exact isElement_of_mem_placeholderContainers hd hid

/-- Links are sorted by the targets that they have before they are stamped. -/
theorem sortsLinks_wire (htarget : r.targetAttribute ≠ r.clusterAttribute)
    (hanchors : d.anchors.Nodup) : (d.wire r).2.SortsLinks d r := by
  have hbears : d.bearsTarget r = fun link => (d.attribute? link r.targetAttribute).isSome := by
    funext link
    rw [bearsTarget, attribute?_stampLink, if_neg fun h => htarget h.2.1]
  refine Wiring.sortsLinks_of_filter hanchors ?_ ?_
  · rw [wire_eq, hbears]
  · rw [wire_eq, hbears]
    simp only [Option.not_isSome]

/-! ### Drawings that were read -/

/-- Wiring sorts, stamps and hides exactly what it should.  For a drawing that was read, and rules
whose word of hiding is a class word and whose clusters are kept neither in class lists nor in
targets: every link is sorted once, and is a header exactly if it has a target; every link gets the
first reference that it carries as its cluster, or keeps what it had; the placeholder edges are
the containers, as far as there are any, of the links whose reference begins as those of
placeholder edges do; these are hidden, and no other attribute or class word changes.  Whatever is
clicked later, every link keeps its role and its cluster. -/
theorem wire_of_ofString {text : String} {source : Drawing} (hsource : ofString text = .ok source)
    (hhidden : IsWord r.hiddenClass) (hclass : r.clusterAttribute ≠ "class")
    (htarget : r.targetAttribute ≠ r.clusterAttribute) (htargets : r.targetAttribute ≠ "class") :
    let start := (source.wire r).1
    let w := (source.wire r).2
    w.SortsLinks source r ∧
    (∀ e key, key ≠ "class" → start.attribute? e key =
      if e ∈ source.anchors ∧ key = r.clusterAttribute then
        (source.reference? r e).or (source.attribute? e key)
      else source.attribute? e key) ∧
    (w.placeholders =
      (source.anchors.filter fun link => (source.reference? r link).any r.isPlaceholder).filterMap
        (source.ancestor? · r.containerDepth)) ∧
    (∀ e word, start.hasClass e word =
      (source.hasClass e word || decide (word = r.hiddenClass ∧ e ∈ w.placeholders))) ∧
    ∀ links, let now := start.afterClicks r w links
      w.SortsLinks now r ∧
        ∀ link, now.attribute? link r.clusterAttribute = start.attribute? link r.clusterAttribute := by
  intro start w
  have hplaceholders : w.placeholders = source.placeholderContainers r := by
    rw [show w = (source.wire r).2 from rfl, wire_eq]
  have hsorts : w.SortsLinks source r :=
    sortsLinks_wire htarget ((wellLinked_ofString hsource).nodup_descendants source.root |>.filter _)
  refine ⟨hsorts, fun e key => attribute?_wire source r e, hplaceholders, fun e word => ?_, ?_⟩
  · rw [hplaceholders]
    exact hasClass_wire hhidden hclass (parentsAreElements_ofString hsource) e word
  · intro links now
    -- Clicks write class lists only.
    have hclicks : now.unclassed = start.unclassed := (reclassed_afterClicks r w links start).unclassed
    have hbare : now.bare = source.bare :=
      (bare_eq_of_unclassed_eq hclicks).trans (bare_wire source r)
    refine ⟨hsorts.congr (anchors_eq hbare) fun link => ?_, fun link => ?_⟩
    · rw [attribute?_eq hclicks htargets, attribute?_wire source r link htargets,
        if_neg fun h => htarget h.2]
    · exact attribute?_eq hclicks hclass link

/-- A drawing with a link inside a header, and with links of placeholder edges that share a
container or have none. -/
def mixedLinks : Drawing where
  nodes := #[⟨.element ⟨"svg", [], []⟩, none, [1, 2]⟩,
    ⟨.element ⟨"a", [], [("href", "not_q")]⟩, some 0, []⟩,
    ⟨.element ⟨"g", [], [("class", "x")]⟩, some 0, [3]⟩, ⟨.element ⟨"g", [], []⟩, some 2, [4, 6, 7]⟩,
    ⟨.element ⟨"a", [], [("cluster", "m"), ("target", "t")]⟩, some 3, [5]⟩,
    ⟨.element ⟨"a", [], [("cluster", "m"), ("href", "not_m")]⟩, some 4, []⟩,
    ⟨.element ⟨"a", [], [("href", "not_m")]⟩, some 3, []⟩,
    ⟨.element ⟨"a", [], [("href", "not_n")]⟩, some 3, []⟩]
  root := 0
  prologue := []
  epilogue := []

/-- The drawing as text. -/
def mixedLinksText : String :=
  "<svg><a href=\"not_q\"/><g class=\"x\"><g><a cluster=\"m\" target=\"t\">" ++
    "<a cluster=\"m\" href=\"not_m\"/></a><a href=\"not_m\"/><a href=\"not_n\"/></g></g></svg>"

theorem ofString_mixedLinks : ofString mixedLinksText = .ok mixedLinks :=
  eq_ok_of_toOption (by decide +kernel)

/-- The header keeps its cluster, the link inside it gets another one, and the container that two
links share is listed twice.  After clicks the links are sorted as before. -/
theorem wire_of_ofString_mixedLinks :
    let start := (mixedLinks.wire {}).1
    let w := (mixedLinks.wire {}).2
    w.headers = [4] ∧ w.silent = [1, 5, 6, 7] ∧ w.placeholders = [3, 2, 2] ∧
      start.attribute? 4 "cluster" = some "m" ∧ start.attribute? 5 "cluster" = some "not_m" ∧
      start.hasClass 2 "hide" = true ∧ start.hasClass 2 "x" = true ∧
      start.hasClass 4 "hide" = false ∧ w.SortsLinks (start.afterClicks {} w [4, 1]) {} := by
  intro start w
  obtain ⟨hsorts, hstamps, hplaceholders, hhides, hclicks⟩ := wire_of_ofString (r := {})
    ofString_mixedLinks (by decide) (by decide) (by decide) (by decide)
  have hcontainers : w.placeholders = [3, 2, 2] := hplaceholders.trans (by decide +kernel)
  refine ⟨hsorts.headers.trans (by decide +kernel), hsorts.silent.trans (by decide +kernel),
    hcontainers, (hstamps 4 "cluster" (by decide)).trans (by decide +kernel),
    (hstamps 5 "cluster" (by decide)).trans (by decide +kernel), ?_, ?_, ?_, (hclicks [4, 1]).1⟩
  all_goals
    refine (hhides _ _).trans ?_
    rw [hcontainers]
    decide +kernel

end Drawing
end GraphFolding
