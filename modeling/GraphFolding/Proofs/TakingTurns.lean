/-
Clicks on one header that fold and unfold by turns.

The rules may be any that pass their check, which asks for a separator and leaves the class words
open.  So words that are no class words, or are not apart from each other, are switched here too:

* `hasClass_setVisibility_any`, `collapsed_click_any` — the flags after a call and after a click,
  whatever the words of folding are;
* `Drawing.TakesTurns`, `takesTurns_iff` — the rules under which clicks on one header take turns;
* `not_forall_takesTurns` — rules that pass the check and are not among them.
-/
import GraphFolding.Proofs.Grafting
import GraphFolding.Proofs.Retouching
namespace GraphFolding

open ClassList (IsWord holdsAfter)

namespace Drawing

variable {r : FoldRules} {w : Wiring}

/-! ### One call -/

section Calls

variable (hclass : r.clusterAttribute ≠ "class")
include hclass

/-- A class word of a node after a call, whatever the words of folding are: first the frame is
written, then the members, then the placeholder edges. -/
theorem hasClass_setVisibility_any {d : Drawing} (hd : d.ParentsAreElements)
    (cluster : String) (trigger : Option NodeId) (visible : Bool) (e : NodeId) (u : String) :
    let framed := (d.toggleFrame r cluster visible).hasClass e u
    let marked := if e ∈ d.clusterMembers r cluster then
        holdsAfter (r.markOf trigger e) u (!visible) framed else framed
    (d.setVisibility r cluster trigger visible).1.hasClass e u =
      if e ∈ d.clusterMembers r (r.placeholderFor cluster) then
        holdsAfter r.hiddenClass u (!(trigger.isSome && !visible)) marked
      else marked := by
  intro framed marked
  have hframe := (reclassed_toggleFrame r d cluster visible).unclassed
  have hmarked := ((reclassed_toggleElements r (d.toggleFrame r cluster visible) trigger visible
    (d.clusterMembers r cluster)).unclassed).trans hframe
  have hmembers : ∀ id ∈ d.clusterMembers r cluster,
      (d.toggleFrame r cluster visible).isElement id := by
    intro id hid
    rw [isElement_eq (bare_eq_of_unclassed_eq hframe)]
    exact isElement_of_mem_clusterMembers hd hid
  simp only [setVisibility]
  rw [clusterMembers_eq hmarked hclass, hasClass_toggleElements_any,
    hasClass_toggleElements_any hmembers]
  · rfl
  · intro id hid
    rw [isElement_eq (bare_eq_of_unclassed_eq hmarked)]
    exact isElement_of_mem_clusterMembers hd hid

/-- The container that a cluster is folded into or unfolded from gets the flag `collapsed` that
the call means to write, unless it is a placeholder edge of the cluster too. -/
theorem collapsed_setVisibility_any (hword : IsWord r.collapsedClass) {d : Drawing}
    (hd : d.ParentsAreElements) {cluster : String} {container : NodeId}
    (hmember : container ∈ d.clusterMembers r cluster) (visible : Bool) :
    (d.setVisibility r cluster (some container) visible).1.hasClass container r.collapsedClass =
      if container ∈ d.clusterMembers r (r.placeholderFor cluster) then
        holdsAfter r.hiddenClass r.collapsedClass visible (!visible)
      else !visible := by
  have hmark : r.markOf (some container) container = r.collapsedClass := if_pos rfl
  rw [hasClass_setVisibility_any hclass hd, if_pos hmember, hmark,
    ClassList.holdsAfter_of_isWord hword, if_pos rfl]
  simp

/-- A call without a trigger, or with another one, that shows a cluster leaves no member of it
hidden that is not a placeholder edge as well. -/
theorem hidden_setVisibility_shown {d : Drawing} (hd : d.ParentsAreElements) {cluster : String}
    {trigger : Option NodeId} {e : NodeId} (hmember : e ∈ d.clusterMembers r cluster)
    (htrigger : trigger ≠ some e) (hplain : e ∉ d.clusterMembers r (r.placeholderFor cluster)) :
    (d.setVisibility r cluster trigger true).1.hasClass e r.hiddenClass = false := by
  have hmark : r.markOf trigger e = r.hiddenClass := if_neg htrigger
  rw [hasClass_setVisibility_any hclass hd, if_neg hplain, if_pos hmember, hmark]
  simp [holdsAfter]

end Calls

/-! ### One click -/

theorem unclassed_cascade (r : FoldRules) (d : Drawing) (headers : List NodeId) (cluster : String)
    (visible : Bool) : (d.cascade r headers cluster visible).1.unclassed = d.unclassed := by
  have hcascade : Reclassed r d (d.cascade r headers cluster visible).1 :=
    cascade_induction (.refl r) .trans fun call _ =>
      reclassed_setVisibility r call.1 call.2 none visible
  exact hcascade.unclassed

theorem hasClass_of_not_isWord {word : String} (hword : ¬IsWord word) (d : Drawing)
    (id : NodeId) : d.hasClass id word = false := by
  have hnot : ∀ value, word ∉ ClassList.words value :=
    fun value h => hword (ClassList.isWord_of_mem_words h)
  rw [hasClass_eq_decide]
  rcases d.attribute? id "class" with _ | value
  · rfl
  · simp [hnot]

section Clicks

variable (hclass : r.clusterAttribute ≠ "class") {d : Drawing} (hd : d.Wired w) {link : NodeId}
  {cluster : String} {container : NodeId} (h : d.target? r w link = some (cluster, container))
include hclass hd h

/-- The flag `collapsed` of the container after a click: flipped, unless the container is a
placeholder edge of the clicked cluster too, and is written once more. -/
theorem collapsed_click_any (hword : IsWord r.collapsedClass) :
    let visible := d.hasClass container r.collapsedClass
    (d.click r w link).1.hasClass container r.collapsedClass =
      if container ∈ d.clusterMembers r (r.placeholderFor cluster) then
        holdsAfter r.hiddenClass r.collapsedClass visible (!visible)
      else !visible := by
  intro visible
  have hcascade := unclassed_cascade r d w.headers cluster visible
  have hparents := hd.parents.congr (bare_eq_of_unclassed_eq hcascade)
  have hmember : container ∈
      (d.cascade r w.headers cluster visible).1.clusterMembers r cluster := by
    rw [clusterMembers_eq hcascade hclass]
    exact hd.target_mem h
  rw [click_of_target?_eq_some h]
  dsimp only
  rw [collapsed_setVisibility_any hclass hword hparents hmember,
    clusterMembers_eq hcascade hclass]

/-- A click that unfolds leaves no member in hiding but the container and placeholder edges. -/
theorem hidden_click_shown (hfolded : d.hasClass container r.collapsedClass = true) {e : NodeId}
    (hmember : e ∈ d.clusterMembers r cluster) (he : e ≠ container)
    (hplain : e ∉ d.clusterMembers r (r.placeholderFor cluster)) :
    (d.click r w link).1.hasClass e r.hiddenClass = false := by
  have hcascade := unclassed_cascade r d w.headers cluster true
  have hparents := hd.parents.congr (bare_eq_of_unclassed_eq hcascade)
  rw [click_of_target?_eq_some h]
  dsimp only
  rw [hfolded]
  refine hidden_setVisibility_shown hclass hparents ?_ (fun h => he (Option.some_inj.mp h).symm) ?_
  · rwa [clusterMembers_eq hcascade hclass]
  · rwa [clusterMembers_eq hcascade hclass]

end Clicks

/-! ### Clicks on one link -/

/-- The drawing after a number of clicks on one link. -/
def clickedTimes (d : Drawing) (r : FoldRules) (w : Wiring) (link : NodeId) (n : Nat) : Drawing :=
  d.afterClicks r w (List.replicate n link)

theorem clickedTimes_succ (d : Drawing) (r : FoldRules) (w : Wiring) (link : NodeId) (n : Nat) :
    d.clickedTimes r w link (n + 1) = ((d.clickedTimes r w link n).click r w link).1 := by
  rw [clickedTimes, List.replicate_succ', afterClicks, List.foldl_append]
  rfl

theorem reclassed_afterClicks (r : FoldRules) (w : Wiring) (links : List NodeId) :
    ∀ (d : Drawing), Reclassed r d (d.afterClicks r w links) := by
  induction links with
  | nil => exact fun d => .refl r d
  | cons link links ih => exact fun d => (reclassed_click r d w link).trans (ih _)

theorem unclassed_clickedTimes (d : Drawing) (r : FoldRules) (w : Wiring) (link : NodeId)
    (n : Nat) : (d.clickedTimes r w link n).unclassed = d.unclassed :=
  (reclassed_afterClicks r w _ d).unclassed

theorem Wired.clickedTimes {d : Drawing} (hd : d.Wired w) (r : FoldRules) (link : NodeId)
    (n : Nat) : (d.clickedTimes r w link n).Wired w :=
  hd.congr (bare_eq_of_unclassed_eq (unclassed_clickedTimes d r w link n))

/-- Clicks on one header take turns: the first one folds the cluster, the next one unfolds it,
and so on.  After each click that unfolds, the members are in sight, but for the container and for
placeholder edges of the cluster or of a cluster of the cascade. -/
structure TakesTurns (d : Drawing) (r : FoldRules) (w : Wiring) (link : NodeId)
    (cluster : String) (container : NodeId) : Prop where
  reports : ∀ n, ((d.clickedTimes r w link n).click r w link).2.expanded = some (decide (n % 2 = 1))
  shown : ∀ n, ∀ e ∈ d.clusterMembers r cluster, e ≠ container →
    e ∉ d.clusterMembers r (r.placeholderFor cluster) →
    (∀ sub ∈ d.cascaded r w.headers cluster, e ∉ d.clusterMembers r (r.placeholderFor sub)) →
    (d.clickedTimes r w link (2 * n + 2)).hasClass e r.hiddenClass = false

section Turns

variable (hclass : r.clusterAttribute ≠ "class") {d : Drawing} (hd : d.Wired w) {link : NodeId}
  {cluster : String} {container : NodeId} (h : d.target? r w link = some (cluster, container))
include hclass h

theorem target?_clickedTimes (n : Nat) :
    (d.clickedTimes r w link n).target? r w link = some (cluster, container) :=
  (target?_congr hclass (unclassed_clickedTimes d r w link n) w link).trans h

theorem expanded_clickedTimes (n : Nat) :
    ((d.clickedTimes r w link n).click r w link).2.expanded =
      some ((d.clickedTimes r w link n).hasClass container r.collapsedClass) :=
  expanded_click (target?_clickedTimes hclass h n)

include hd

/-- The flag `collapsed` of the container after one more click. -/
theorem collapsed_clickedTimes_succ (hword : IsWord r.collapsedClass) (n : Nat) :
    (d.clickedTimes r w link (n + 1)).hasClass container r.collapsedClass =
      if container ∈ d.clusterMembers r (r.placeholderFor cluster) then
        holdsAfter r.hiddenClass r.collapsedClass
          ((d.clickedTimes r w link n).hasClass container r.collapsedClass)
          (!(d.clickedTimes r w link n).hasClass container r.collapsedClass)
      else !(d.clickedTimes r w link n).hasClass container r.collapsedClass := by
  rw [clickedTimes_succ, collapsed_click_any hclass (hd.clickedTimes r link n)
    (target?_clickedTimes hclass h n) hword,
    clusterMembers_eq (unclassed_clickedTimes d r w link n) hclass]

/-- With suitable rules the flag counts the clicks modulo two. -/
theorem collapsed_clickedTimes (hword : IsWord r.collapsedClass)
    (hapart : r.collapsedClass ∈ ClassList.words r.hiddenClass →
      container ∉ d.clusterMembers r (r.placeholderFor cluster))
    (hopen : d.hasClass container r.collapsedClass = false) (n : Nat) :
    (d.clickedTimes r w link n).hasClass container r.collapsedClass = decide (n % 2 = 1) := by
  induction n with
  | zero => exact hopen
  | succ n ih =>
    have hturn : decide ((n + 1) % 2 = 1) = !decide (n % 2 = 1) := by
      rw [← decide_not, decide_eq_decide]
      omega
    rw [collapsed_clickedTimes_succ hclass hd h hword, ih, hturn]
    by_cases hp : container ∈ d.clusterMembers r (r.placeholderFor cluster)
    · -- The word `hidden`, written last, has nothing to do with the word `collapsed`.
      have hnot : r.collapsedClass ∉ ClassList.words r.hiddenClass := fun hmem => hapart hmem hp
      have hne : r.collapsedClass ≠ r.hiddenClass := by
        intro heq
        rw [← heq, ClassList.words_of_isWord hword] at hnot
        exact hnot List.mem_cons_self
      rw [if_pos hp]
      cases decide (n % 2 = 1) <;> simp [holdsAfter, hnot, hne]
    · rw [if_neg hp]

theorem takesTurns_of_words (hword : IsWord r.collapsedClass)
    (hapart : r.collapsedClass ∈ ClassList.words r.hiddenClass →
      container ∉ d.clusterMembers r (r.placeholderFor cluster))
    (hopen : d.hasClass container r.collapsedClass = false) :
    d.TakesTurns r w link cluster container where
  reports n := by
    rw [expanded_clickedTimes hclass h, collapsed_clickedTimes hclass hd h hword hapart hopen]
  shown n e hmember he hplain _ := by
    have hsame := unclassed_clickedTimes d r w link (2 * n + 1)
    have hfolded : (d.clickedTimes r w link (2 * n + 1)).hasClass container r.collapsedClass =
        true := by
      rw [collapsed_clickedTimes hclass hd h hword hapart hopen, decide_eq_true_eq]
      omega
    rw [clickedTimes_succ]
    refine hidden_click_shown hclass (hd.clickedTimes r link _)
      (target?_clickedTimes hclass h _) hfolded ?_ he ?_
    · rwa [clusterMembers_eq hsame hclass]
    · rwa [clusterMembers_eq hsame hclass]

/-- Two clicks are enough to tell whether clicks take turns. -/
theorem words_of_takesTurns (hturns : d.TakesTurns r w link cluster container) :
    IsWord r.collapsedClass ∧ (r.collapsedClass ∈ ClassList.words r.hiddenClass →
      container ∉ d.clusterMembers r (r.placeholderFor cluster)) := by
  have hflag : ∀ n, (d.clickedTimes r w link n).hasClass container r.collapsedClass =
      decide (n % 2 = 1) := fun n =>
    Option.some_inj.mp ((expanded_clickedTimes hclass h n).symm.trans (hturns.reports n))
  have hword : IsWord r.collapsedClass := by
    refine Decidable.not_not.mp fun hnot => ?_
    have := hflag 1
    rw [hasClass_of_not_isWord hnot] at this
    exact absurd this (by decide)
  refine ⟨hword, fun hmem hp => ?_⟩
  -- The second click shows the placeholder edge, and so writes the word `collapsed` again.
  have hsecond := collapsed_clickedTimes_succ hclass hd h hword 1
  rw [hflag, hflag, if_pos hp] at hsecond
  simp [holdsAfter, hmem] at hsecond

end Turns

/-- When clicks on a header take turns.  In a drawing that was read and wired, and after any run of
clicks, take a header whose container is not collapsed; the rules may be any that do not keep
clusters in class lists.  Clicks on the header take turns exactly if the word for what is collapsed
is a class word and, where the container is a placeholder edge of its own cluster, does not stand in
the text for what is hidden. -/
theorem takesTurns_iff {text : String} {source : Drawing} (hsource : ofString text = .ok source)
    (hclass : r.clusterAttribute ≠ "class") (links : List NodeId) {link container : NodeId}
    {cluster : String}
    (h : (source.wire r).1.target? r (source.wire r).2 link = some (cluster, container))
    (hopen : ((source.wire r).1.afterClicks r (source.wire r).2 links).hasClass container
      r.collapsedClass = false) :
    let w := (source.wire r).2
    let now := (source.wire r).1.afterClicks r w links
    now.TakesTurns r w link cluster container ↔
      IsWord r.collapsedClass ∧ (r.collapsedClass ∈ ClassList.words r.hiddenClass →
        container ∉ now.clusterMembers r (r.placeholderFor cluster)) := by
  intro w now
  have hrun := (reclassed_afterClicks r w links (source.wire r).1).unclassed
  have hnow : now.Wired w :=
    (wired_wire (parentsAreElements_ofString hsource) r).congr (bare_eq_of_unclassed_eq hrun)
  have htarget : now.target? r w link = some (cluster, container) :=
    (target?_congr hclass hrun w link).trans h
  exact ⟨words_of_takesTurns hclass hnow htarget,
    fun ⟨hword, hapart⟩ => takesTurns_of_words hclass hnow htarget hword hapart hopen⟩

/-- One word for both flags does no harm where the container is no placeholder edge. -/
theorem takesTurns_iff_nestedPair :
    let r : FoldRules := { hiddenClass := "collapsed" }
    let w := (nestedPair.wire r).2
    ((nestedPair.wire r).1.afterClicks r w [3, 3]).TakesTurns r w 6 "m.n" 4 := by
  intro r w
  have htarget : (nestedPair.wire r).1.target? r w 6 = some ("m.n", 4) := by decide +kernel
  have h := takesTurns_iff ofString_nestedPair (by decide) [3, 3] htarget (by decide +kernel)
  exact h.mpr (by decide +kernel)

/-- Rules with a separator may have a text for what is collapsed that is no class word.  The mark
is never found again, and every click folds. -/
theorem not_forall_takesTurns : ¬∀ (r : FoldRules) (text : String) (source : Drawing),
    r.check = true → ofString text = .ok source →
    ∀ link cluster container,
    (source.wire r).1.target? r (source.wire r).2 link = some (cluster, container) →
    (source.wire r).1.hasClass container r.collapsedClass = false →
    (source.wire r).1.TakesTurns r (source.wire r).2 link cluster container := by
  intro hall
  have h := hall { collapsedClass := "is collapsed" } nestedPairText nestedPair (by decide)
    ofString_nestedPair 3 "m" 1 (by decide +kernel) (by decide +kernel)
  exact absurd (h.reports 1) (by decide +kernel)

end Drawing
end GraphFolding
