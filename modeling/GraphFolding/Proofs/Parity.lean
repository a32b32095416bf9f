/-
The flag `collapsed` over a run of clicks.

A click flips the flag of the container it acts on and of nothing else, whatever its
cascade, its frame and its placeholder edges do.  So the flag counts clicks modulo two:

* `Drawing.flips` — the clicks that count for an element;
* `collapsed_afterClicks_iff` — the flag after a run, in a wired drawing;
* `collapsed_parity` — drawings that were read: the flag after a run, and what every single
  click of the run reports.
-/
import GraphFolding.Proofs.Grafting
import GraphFolding.Proofs.WiringEffect
import Mathlib.Algebra.Ring.Parity
import Mathlib.Logic.Basic
namespace GraphFolding.Drawing

variable {r : FoldRules} {w : Wiring}

/-- Whether a click on a link acts on this container. -/
def flips (d : Drawing) (r : FoldRules) (w : Wiring) (e link : NodeId) : Bool :=
  (d.target? r w link).map Prod.snd = some e

theorem flips_eq_false_of_target?_eq_none {d : Drawing} {e link : NodeId}
    (h : d.target? r w link = none) : d.flips r w e link = false := by
  simp [flips, h]

theorem flips_of_target?_eq_some {d : Drawing} {e link container : NodeId} {cluster : String}
    (h : d.target? r w link = some (cluster, container)) :
    d.flips r w e link = decide (container = e) := by
  simp [flips, h]

/-! ### Single steps -/

/-- A click flips the flag of the container it acts on. -/
theorem collapsed_click_eq_xor (hr : r.Separate) {d : Drawing} (hd : d.Wired w)
    (link e : NodeId) :
    (d.click r w link).1.hasClass e r.collapsedClass =
      (d.hasClass e r.collapsedClass ^^ d.flips r w e link) := by
  rcases h : d.target? r w link with _ | ⟨cluster, container⟩
  · rw [click_of_target?_eq_none h, flips_eq_false_of_target?_eq_none h, Bool.xor_false]
  · rw [collapsed_click hr hd h, flips_of_target?_eq_some h]
    by_cases he : container = e
    · rw [if_pos he, decide_eq_true he, Bool.xor_true]
    · rw [if_neg he, decide_eq_false he, Bool.xor_false]

theorem collapsed_cascade (hr : r.Separate) {d : Drawing} (hd : d.ParentsAreElements)
    (headers : List NodeId) (cluster : String) (visible : Bool) (e : NodeId) :
    (d.cascade r headers cluster visible).1.hasClass e r.collapsedClass =
      d.hasClass e r.collapsedClass := by
  rw [cascade_fst hr, collapsed_setVisibilities hr hd]

theorem collapsed_toggleFrame (hr : r.Separate) (d : Drawing) (cluster : String)
    (visible : Bool) (e : NodeId) :
    (d.toggleFrame r cluster visible).hasClass e r.collapsedClass =
      d.hasClass e r.collapsedClass := by
  rw [hasClass_toggleFrame hr, if_neg]
  rintro ⟨-, h⟩
  exact hr.hidden_ne_collapsed h.symm

/-- Containers without a trigger among them, such as those of placeholder edges, keep the
flag. -/
theorem collapsed_toggleElements (hr : r.Separate) {d : Drawing} (hd : d.ParentsAreElements)
    (cluster : String) (visible : Bool) (e : NodeId) :
    (d.toggleElements r none visible (d.clusterMembers r cluster)).hasClass e r.collapsedClass =
      d.hasClass e r.collapsedClass := by
  rw [hasClass_toggleElements hr fun id hid => isElement_of_mem_clusterMembers hd hid, if_neg]
  rintro ⟨-, h⟩
  have hmark : r.markOf none e = r.hiddenClass := by simp [FoldRules.markOf]
  exact hr.hidden_ne_collapsed (hmark ▸ h.symm)

/-! ### Runs -/

/-- An element is collapsed after a run of clicks if it was so before, or else was flipped
an odd number of times. -/
theorem collapsed_afterClicks_iff (hr : r.Separate) {links : List NodeId} :
    ∀ {d : Drawing}, d.Wired w → ∀ (e : NodeId),
    (d.afterClicks r w links).hasClass e r.collapsedClass = true ↔
      Xor (d.hasClass e r.collapsedClass = true) (Odd (links.countP (d.flips r w e))) := by
  induction links with
  | nil =>
    intro d _ e
    simp [afterClicks, xor_def]
  | cons link links ih =>
    intro d hd e
    have hstep := refolded_click hr d w link
    -- The rest of the run counts the same clicks, since no click rewires a link.
    have hflips : (d.click r w link).1.flips r w e = d.flips r w e := by
      funext l
      rw [flips, target?_eq hr hstep, flips]
    rw [afterClicks_cons, ih (hd.refold hstep) e, hflips,
      collapsed_click_eq_xor hr hd, List.countP_cons]
    rcases d.flips r w e link with _ | _
    · simp
    · rw [if_pos rfl, Nat.odd_add_one, Bool.xor_true]
      cases d.hasClass e r.collapsedClass <;> simp [Xor]

/-- The flag `collapsed` counts clicks modulo two.  In a drawing that was read and wired, an
element is collapsed after any run of clicks if it was so at the start, or else it is the
container of an odd number of clicked headers.  Every click of the run reports the flag of
its container just before, or does nothing; and no cascade, no frame and no placeholder edge
touches a flag. -/
theorem collapsed_parity {text : String} {d : Drawing} (hd : ofString text = .ok d)
    (hr : r.Separate) (links : List NodeId) :
    let start := (d.wire r).1
    let w := (d.wire r).2
    (∀ e, (start.afterClicks r w links).hasClass e r.collapsedClass = true ↔
      Xor (start.hasClass e r.collapsedClass = true)
        (Odd (links.countP (start.flips r w e)))) ∧
    (∀ before link after, links = before ++ link :: after →
      let now := start.afterClicks r w before
      (∀ cluster container, now.target? r w link = some (cluster, container) →
        start.target? r w link = some (cluster, container) ∧
        (now.click r w link).2.expanded = some (now.hasClass container r.collapsedClass)) ∧
      (now.target? r w link = none →
        start.target? r w link = none ∧ now.click r w link = (now, {}))) ∧
    (∀ now, Refolded r start now → ∀ cluster visible e,
      (now.cascade r w.headers cluster visible).1.hasClass e r.collapsedClass =
        now.hasClass e r.collapsedClass ∧
      (now.toggleFrame r cluster visible).hasClass e r.collapsedClass =
        now.hasClass e r.collapsedClass ∧
      (now.toggleElements r none visible (now.clusterMembers r cluster)).hasClass e
        r.collapsedClass = now.hasClass e r.collapsedClass) := by
  intro start w
  have hstart : start.Wired w := wired_wire (parentsAreElements_ofString hd) r
  refine ⟨collapsed_afterClicks_iff hr hstart, ?_, ?_⟩
  · intro before link after _ now
    have htarget : now.target? r w link = start.target? r w link :=
      target?_eq hr (refolded_afterClicks hr start w before) w link
    exact ⟨fun cluster container h => ⟨htarget ▸ h, expanded_click h⟩,
      fun h => ⟨htarget ▸ h, click_of_target?_eq_none h⟩⟩
  · intro now hnow cluster visible e
    have hparents : now.ParentsAreElements := hstart.parents.congr hnow.bare
    exact ⟨collapsed_cascade hr hparents _ _ _ e, collapsed_toggleFrame hr _ _ _ e,
      collapsed_toggleElements hr hparents _ _ e⟩

theorem collapsed_parity_nestedPair :
    ((nestedPair.wire {}).1.afterClicks {} (nestedPair.wire {}).2 [3, 6, 5, 3, 3]).hasClass 1
      "collapsed" = true := by
  have h := collapsed_parity ofString_nestedPair FoldRules.separate_default [3, 6, 5, 3, 3]
  exact (h.1 1).mpr (by decide +kernel)

end GraphFolding.Drawing
