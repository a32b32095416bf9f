/-
What showing or hiding one cluster does to every node.

* `FoldRules.Separate` — the rules whose markers do not get in each other's way;
* `Refolded` — two drawings that differ in the two class words of folding only; they have
  the same members, placeholder edges and frames;
* `hidden_setVisibility`, `collapsed_setVisibility` — the two flags of a node after a
  cluster was shown or hidden, in terms of the drawing before.

The flags are those of elements, and every container is one where nothing hangs below
text: `Drawing.ParentsAreElements`.
-/
import GraphFolding.Folding.Toggle
import GraphFolding.Proofs.AttributeChange
namespace GraphFolding

open ClassList (IsWord)

/-- The markers of the rules do not get in each other's way: the two class words of folding
are different words, frames are recognised by a third one, and the cluster of a link is not
kept in its class list. -/
structure FoldRules.Separate (r : FoldRules) : Prop where
  hidden : IsWord r.hiddenClass
  collapsed : IsWord r.collapsedClass
  hidden_ne_collapsed : r.hiddenClass ≠ r.collapsedClass
  frame_ne_hidden : r.frameClass ≠ r.hiddenClass
  frame_ne_collapsed : r.frameClass ≠ r.collapsedClass
  cluster_ne_class : r.clusterAttribute ≠ "class"

theorem FoldRules.separate_default : FoldRules.Separate {} :=
  ⟨by decide, by decide, by decide, by decide, by decide, by decide⟩

/-- The class word by which a container is marked: the trigger as collapsed, every other one
as hidden. -/
def FoldRules.markOf (r : FoldRules) (trigger : Option NodeId) (id : NodeId) : String :=
  if trigger = some id then r.collapsedClass else r.hiddenClass

namespace Drawing

/-- Whatever hangs below a node hangs below an element. -/
def ParentsAreElements (d : Drawing) : Prop := ∀ id p, d.parent? id = some p → d.isElement p

theorem ParentsAreElements.congr {d d' : Drawing} (hd : d.ParentsAreElements)
    (h : d'.bare = d.bare) : d'.ParentsAreElements := by
  intro id p hp
  rw [parent?_eq h] at hp
  rw [isElement_eq h]
  exact hd id p hp

theorem isElement_of_ancestor? {d : Drawing} (hd : d.ParentsAreElements) {n : Nat} :
    ∀ {id e : NodeId}, d.isElement id → d.ancestor? id n = some e → d.isElement e := by
  induction n with
  | zero =>
    intro id e hid h
    rwa [Option.some_inj.mp h] at hid
  | succ n ih =>
    intro id e _ h
    rw [ancestor?, Option.bind_eq_some_iff] at h
    obtain ⟨p, hp, h⟩ := h
    exact ih (hd id p hp) h

theorem isElement_of_isNamed {d : Drawing} {localName : String} {id : NodeId}
    (h : d.isNamed localName id) : d.isElement id := by
  rw [isNamed] at h
  rw [isElement]
  rcases hel : d.element? id with _ | e
  · simp [hel] at h
  · rfl

theorem isElement_of_mem_anchors {d : Drawing} {link : NodeId} (h : link ∈ d.anchors) :
    d.isElement link :=
  isElement_of_isNamed (List.mem_filter.mp h).2

theorem mem_clusterMembers {d : Drawing} {r : FoldRules} {cluster : String} {e : NodeId} :
    e ∈ d.clusterMembers r cluster ↔ ∃ link ∈ d.anchors,
      d.attribute? link r.clusterAttribute = some cluster ∧
      d.ancestor? link r.containerDepth = some e := by
  simp [clusterMembers, and_assoc]

/-- The members of a cluster are the same where only class lists differ. -/
theorem clusterMembers_eq {d d' : Drawing} (h : d'.unclassed = d.unclassed) {r : FoldRules}
    (hclass : r.clusterAttribute ≠ "class") (cluster : String) :
    d'.clusterMembers r cluster = d.clusterMembers r cluster := by
  have hbare := bare_eq_of_unclassed_eq h
  have hancestor : (d'.ancestor? · r.containerDepth) = (d.ancestor? · r.containerDepth) :=
    funext fun link => ancestor?_eq hbare link r.containerDepth
  simp only [clusterMembers, anchors_eq hbare, attribute?_eq h hclass, hancestor]

theorem isElement_of_mem_clusterMembers {d : Drawing} (hd : d.ParentsAreElements)
    {r : FoldRules} {cluster : String} {e : NodeId} (h : e ∈ d.clusterMembers r cluster) :
    d.isElement e := by
  obtain ⟨link, hlink, -, he⟩ := mem_clusterMembers.mp h
  exact isElement_of_ancestor? hd (isElement_of_mem_anchors hlink) he

theorem hasClass_of_clusterFrame? {d : Drawing} {r : FoldRules} {cluster : String} {e : NodeId}
    (h : d.clusterFrame? r cluster = some e) : d.hasClass e r.frameClass :=
  (List.mem_filter.mp (List.mem_of_find?_eq_some h)).2

theorem isElement_of_clusterFrame? {d : Drawing} {r : FoldRules} {cluster : String} {e : NodeId}
    (h : d.clusterFrame? r cluster = some e) : d.isElement e :=
  isElement_of_hasClass (hasClass_of_clusterFrame? h)

end Drawing

/-! ### Drawings folded differently -/

/-- A drawing folded differently: only the two class words of folding may differ. -/
structure Refolded (r : FoldRules) (d d' : Drawing) : Prop where
  rest : d'.unclassed = d.unclassed
  words : ∀ id word, word ≠ r.hiddenClass → word ≠ r.collapsedClass →
    d'.hasClass id word = d.hasClass id word

namespace Refolded

open Drawing

variable {r : FoldRules} {d d' d'' : Drawing}

theorem refl (r : FoldRules) (d : Drawing) : Refolded r d d := ⟨rfl, fun _ _ _ _ => rfl⟩

theorem trans (h : Refolded r d d') (h' : Refolded r d' d'') : Refolded r d d'' where
  rest := h'.rest.trans h.rest
  words id word hw hw' := (h'.words id word hw hw').trans (h.words id word hw hw')

/-- Each step of a fold may fold the drawing differently. -/
theorem foldl {α : Type} {step : Drawing → α → Drawing}
    (hstep : ∀ d a, Refolded r d (step d a)) (d : Drawing) (l : List α) :
    Refolded r d (l.foldl step d) := by
  induction l generalizing d with
  | nil => exact refl r d
  | cons a l ih => exact (hstep d a).trans (ih (step d a))

theorem setClass {word : String} (hw : word = r.hiddenClass ∨ word = r.collapsedClass)
    (hr : IsWord word) (d : Drawing) (id : NodeId) (on : Bool) :
    Refolded r d (d.setClass id word on) where
  rest := unclassed_setClass d id word on
  words e u hu hu' := by
    rw [hasClass_setClass hr, if_neg]
    rintro ⟨-, rfl⟩
    exact hw.elim hu hu'

theorem bare (h : Refolded r d d') : d'.bare = d.bare := bare_eq_of_unclassed_eq h.rest

theorem cluster_eq (h : Refolded r d d') (hr : r.Separate) (link : NodeId) :
    d'.attribute? link r.clusterAttribute = d.attribute? link r.clusterAttribute :=
  attribute?_eq h.rest hr.cluster_ne_class link

theorem clusterMembers_eq (h : Refolded r d d') (hr : r.Separate) (cluster : String) :
    d'.clusterMembers r cluster = d.clusterMembers r cluster :=
  Drawing.clusterMembers_eq h.rest hr.cluster_ne_class cluster

/-- Frames are found as before, if their class word is none of the two words of folding. -/
theorem clusterFrame?_eq_of_ne (h : Refolded r d d') (hhidden : r.frameClass ≠ r.hiddenClass)
    (hcollapsed : r.frameClass ≠ r.collapsedClass) (cluster : String) :
    d'.clusterFrame? r cluster = d.clusterFrame? r cluster := by
  have hframe : ∀ id, d'.hasClass id r.frameClass = d.hasClass id r.frameClass :=
    fun id => h.words id r.frameClass hhidden hcollapsed
  simp only [clusterFrame?, elementsWithClass, root_eq h.bare, descendants_eq h.bare, hframe,
    descendantText?_eq h.bare]

theorem clusterFrame?_eq (h : Refolded r d d') (hr : r.Separate) (cluster : String) :
    d'.clusterFrame? r cluster = d.clusterFrame? r cluster :=
  h.clusterFrame?_eq_of_ne hr.frame_ne_hidden hr.frame_ne_collapsed cluster

end Refolded

/-! ### The two flags after a cluster was shown or hidden -/

namespace Drawing

variable {r : FoldRules}

theorem toggleElement_eq (d : Drawing) (r : FoldRules) (trigger : Option NodeId) (visible : Bool)
    (id : NodeId) :
    d.toggleElement r trigger visible id = d.setClass id (r.markOf trigger id) !visible := by
  unfold toggleElement FoldRules.markOf
  split <;> rfl

theorem markOf_eq_or (r : FoldRules) (trigger : Option NodeId) (id : NodeId) :
    r.markOf trigger id = r.hiddenClass ∨ r.markOf trigger id = r.collapsedClass := by
  unfold FoldRules.markOf
  split
  · exact .inr rfl
  · exact .inl rfl

theorem isWord_markOf (hr : r.Separate) (trigger : Option NodeId) (id : NodeId) :
    IsWord (r.markOf trigger id) := by
  unfold FoldRules.markOf
  split
  · exact hr.collapsed
  · exact hr.hidden

theorem refolded_toggleElements (hr : r.Separate) (d : Drawing) (trigger : Option NodeId)
    (visible : Bool) (ids : List NodeId) :
    Refolded r d (d.toggleElements r trigger visible ids) := by
  refine Refolded.foldl (fun d id => ?_) d ids
  rw [toggleElement_eq]
  exact .setClass (markOf_eq_or r trigger id) (isWord_markOf hr trigger id) d id _

/-- A class word of a node after several containers were shown or hidden. -/
theorem hasClass_toggleElements_any {trigger : Option NodeId} {visible : Bool}
    {ids : List NodeId} : ∀ {d : Drawing}, (∀ id ∈ ids, d.isElement id) → ∀ (e : NodeId)
    (u : String), (d.toggleElements r trigger visible ids).hasClass e u =
      if e ∈ ids then ClassList.holdsAfter (r.markOf trigger e) u (!visible) (d.hasClass e u)
      else d.hasClass e u := by
  induction ids with
  | nil =>
    intro d _ e u
    simp [toggleElements]
  | cons id ids ih =>
    intro d hel e u
    have hstep : ∀ i ∈ ids, (d.toggleElement r trigger visible id).isElement i := by
      intro i hi
      rw [toggleElement_eq, isElement_eq (bare_eq_of_unclassed_eq (unclassed_setClass ..))]
      exact hel i (List.mem_cons_of_mem id hi)
    rw [toggleElements, List.foldl_cons, ← toggleElements, ih hstep e u, toggleElement_eq,
      hasClass_setClass_any]
    by_cases he : id = e
    · subst he
      have helem : d.isElement id := hel id List.mem_cons_self
      rw [if_pos (And.intro rfl helem), if_pos (List.mem_cons_self : id ∈ id :: ids)]
      -- A node that comes again is written in the same way.
      split
      · rw [ClassList.holdsAfter_holdsAfter]
      · rfl
    · have hmem : e ∈ id :: ids ↔ e ∈ ids := by
        rw [List.mem_cons, or_iff_right (Ne.symm he)]
      simp only [hmem, he, false_and, if_false]

theorem hasClass_toggleElements (hr : r.Separate) {trigger : Option NodeId} {visible : Bool}
    {ids : List NodeId} {d : Drawing} (hel : ∀ id ∈ ids, d.isElement id) (e : NodeId)
    (u : String) : (d.toggleElements r trigger visible ids).hasClass e u =
      if e ∈ ids ∧ u = r.markOf trigger e then !visible else d.hasClass e u := by
  rw [hasClass_toggleElements_any hel, ClassList.holdsAfter_of_isWord (isWord_markOf hr trigger e)]
  by_cases he : e ∈ ids <;> simp [he]

theorem refolded_toggleFrame (hr : r.Separate) (d : Drawing) (cluster : String)
    (visible : Bool) : Refolded r d (d.toggleFrame r cluster visible) := by
  unfold toggleFrame
  split
  · exact .setClass (.inl rfl) hr.hidden d _ _
  · exact .refl r d

theorem hasClass_toggleFrame (hr : r.Separate) (d : Drawing) (cluster : String)
    (visible : Bool) (e : NodeId) (u : String) :
    (d.toggleFrame r cluster visible).hasClass e u =
      if d.clusterFrame? r cluster = some e ∧ u = r.hiddenClass then !visible
      else d.hasClass e u := by
  unfold toggleFrame
  rcases hf : d.clusterFrame? r cluster with _ | frame
  · simp
  · simp only [hasClass_setClass hr.hidden, Option.some_inj]
    by_cases h : frame = e ∧ u = r.hiddenClass
    · have hel : d.isElement e := isElement_of_clusterFrame? (h.1 ▸ hf)
      rw [if_pos h, if_pos h, hel, Bool.and_true]
    · rw [if_neg h, if_neg h]

theorem refolded_setVisibility (hr : r.Separate) (d : Drawing) (cluster : String)
    (trigger : Option NodeId) (visible : Bool) :
    Refolded r d (d.setVisibility r cluster trigger visible).1 :=
  ((refolded_toggleFrame hr d cluster visible).trans
    (refolded_toggleElements hr _ trigger visible _)).trans
    (refolded_toggleElements hr _ none _ _)

/-- Any class word of a node after a cluster was shown or hidden: placeholder edges are
written last, after the members and the frame. -/
theorem hasClass_setVisibility (hr : r.Separate) {d : Drawing} (hd : d.ParentsAreElements)
    (cluster : String) (trigger : Option NodeId) (visible : Bool) (e : NodeId) (u : String) :
    (d.setVisibility r cluster trigger visible).1.hasClass e u =
      if e ∈ d.clusterMembers r (r.placeholderFor cluster) ∧ u = r.hiddenClass then
        !(trigger.isSome && !visible)
      else if e ∈ d.clusterMembers r cluster ∧ u = r.markOf trigger e then !visible
      else if d.clusterFrame? r cluster = some e ∧ u = r.hiddenClass then !visible
      else d.hasClass e u := by
  have h₁ := refolded_toggleFrame hr d cluster visible
  have h₂ := h₁.trans (refolded_toggleElements hr (d.toggleFrame r cluster visible) trigger
    visible (d.clusterMembers r cluster))
  have hmembers : ∀ id ∈ d.clusterMembers r cluster,
      (d.toggleFrame r cluster visible).isElement id := by
    intro id hid
    rw [isElement_eq h₁.bare]
    exact isElement_of_mem_clusterMembers hd hid
  simp only [setVisibility]
  -- From the last write to the first, each read off the drawing before all of them.
  rw [hasClass_toggleElements hr, h₂.clusterMembers_eq hr, hasClass_toggleElements hr hmembers,
    hasClass_toggleFrame hr]
  · rfl
  · intro id hid
    rw [isElement_eq h₂.bare]
    rw [h₂.clusterMembers_eq hr] at hid
    exact isElement_of_mem_clusterMembers hd hid

/-- What a call that shows or hides a cluster reports. -/
def report (d : Drawing) (r : FoldRules) (cluster : String) (trigger : Option NodeId)
    (visible : Bool) : Toggle :=
  ⟨cluster, visible, trigger.isSome, (d.clusterMembers r cluster).length,
    (d.clusterMembers r (r.placeholderFor cluster)).length⟩

theorem setVisibility_snd (hr : r.Separate) (d : Drawing) (cluster : String)
    (trigger : Option NodeId) (visible : Bool) :
    (d.setVisibility r cluster trigger visible).2 = d.report r cluster trigger visible := by
  -- The placeholder edges are counted after members and frame were written.
  have hstep := (refolded_toggleFrame hr d cluster visible).trans
    (refolded_toggleElements hr (d.toggleFrame r cluster visible) trigger visible
      (d.clusterMembers r cluster))
  simp only [setVisibility, hstep.clusterMembers_eq hr, report]

/-- What showing or hiding a cluster writes into the flag `hidden` of a node, if it writes
it at all. -/
def writtenFlag (d : Drawing) (r : FoldRules) (cluster : String) (trigger : Option NodeId)
    (visible : Bool) (e : NodeId) : Option Bool :=
  if e ∈ d.clusterMembers r (r.placeholderFor cluster) then some (trigger.isNone || visible)
  else if (e ∈ d.clusterMembers r cluster ∧ trigger ≠ some e) ∨
      d.clusterFrame? r cluster = some e then some !visible
  else none

/-- The flag `hidden` after a cluster was shown or hidden. -/
theorem hidden_setVisibility (hr : r.Separate) {d : Drawing} (hd : d.ParentsAreElements)
    (cluster : String) (trigger : Option NodeId) (visible : Bool) (e : NodeId) :
    (d.setVisibility r cluster trigger visible).1.hasClass e r.hiddenClass =
      (d.writtenFlag r cluster trigger visible e).getD (d.hasClass e r.hiddenClass) := by
  rw [hasClass_setVisibility hr hd, writtenFlag]
  have hmark : r.hiddenClass = r.markOf trigger e ↔ trigger ≠ some e := by
    unfold FoldRules.markOf
    by_cases h : trigger = some e <;> simp [h, hr.hidden_ne_collapsed]
  by_cases hp : e ∈ d.clusterMembers r (r.placeholderFor cluster)
  · cases trigger <;> simp [hp]
  · by_cases hm : e ∈ d.clusterMembers r cluster ∧ trigger ≠ some e
    · simp [hp, hmark, hm]
    · by_cases hf : d.clusterFrame? r cluster = some e <;> simp [hp, hmark, hm, hf]

/-- The flag `collapsed` after a cluster was shown or hidden: only that of a trigger among
the members is written. -/
theorem collapsed_setVisibility (hr : r.Separate) {d : Drawing} (hd : d.ParentsAreElements)
    (cluster : String) (trigger : Option NodeId) (visible : Bool) (e : NodeId) :
    (d.setVisibility r cluster trigger visible).1.hasClass e r.collapsedClass =
      if trigger = some e ∧ e ∈ d.clusterMembers r cluster then !visible
      else d.hasClass e r.collapsedClass := by
  rw [hasClass_setVisibility hr hd]
  have hne : r.collapsedClass ≠ r.hiddenClass := hr.hidden_ne_collapsed.symm
  have hmark : r.collapsedClass = r.markOf trigger e ↔ trigger = some e := by
    unfold FoldRules.markOf
    by_cases h : trigger = some e <;> simp [h, hne]
  rw [if_neg fun h => hne h.2]
  by_cases h : trigger = some e ∧ e ∈ d.clusterMembers r cluster
  · rw [if_pos h, if_pos ⟨h.2, hmark.mpr h.1⟩]
  · rw [if_neg h, if_neg fun h' => h ⟨hmark.mp h'.2, h'.1⟩, if_neg fun h' => hne h'.2]

end Drawing

namespace Refolded

theorem writtenFlag_eq {r : FoldRules} {d d' : Drawing} (h : Refolded r d d') (hr : r.Separate)
    (cluster : String) (trigger : Option NodeId) (visible : Bool) (e : NodeId) :
    d'.writtenFlag r cluster trigger visible e = d.writtenFlag r cluster trigger visible e := by
  rw [Drawing.writtenFlag, h.clusterMembers_eq hr, h.clusterMembers_eq hr,
    h.clusterFrame?_eq hr, Drawing.writtenFlag]

theorem report_eq {r : FoldRules} {d d' : Drawing} (h : Refolded r d d') (hr : r.Separate)
    (cluster : String) (trigger : Option NodeId) (visible : Bool) :
    d'.report r cluster trigger visible = d.report r cluster trigger visible := by
  rw [Drawing.report, h.clusterMembers_eq hr, h.clusterMembers_eq hr, Drawing.report]

end Refolded
end GraphFolding
