/-
What folding may change: two words of class lists, and the clusters of links.

* `Drawing.IsContainer` — the elements that calls write, besides frames;
* `FoldAction`, `Drawing.afterActions` — drawings wired, clicked, and with single clusters
  shown or hidden, in any order;
* `Drawing.Spares` — a run that has no use for an element: it is never the container of a link
  with a cluster, and never found as a frame;
* `only_class_words_change` — what a run changes at most.
-/
import GraphFolding.Proofs.Grafting
import GraphFolding.Proofs.Retouching
namespace GraphFolding

open ClassList (IsWord)

namespace Drawing

variable {r : FoldRules}

/-! ### Elements without a use -/

/-- Whether an element is the container of a link with a cluster. -/
def IsContainer (d : Drawing) (r : FoldRules) (e : NodeId) : Prop :=
  ∃ link ∈ d.anchors, (d.attribute? link r.clusterAttribute).isSome ∧
    d.ancestor? link r.containerDepth = some e

instance (d : Drawing) (r : FoldRules) (e : NodeId) : Decidable (d.IsContainer r e) :=
  inferInstanceAs (Decidable (∃ link ∈ d.anchors, _))

theorem isContainer_of_mem_clusterMembers {d : Drawing} {cluster : String} {e : NodeId}
    (h : e ∈ d.clusterMembers r cluster) : d.IsContainer r e := by
  obtain ⟨link, hlink, hcluster, hcontainer⟩ := mem_clusterMembers.mp h
  exact ⟨link, hlink, by rw [hcluster]; rfl, hcontainer⟩

/-- The containers are the same where only class lists differ. -/
theorem isContainer_congr {d d' : Drawing} (h : d'.unclassed = d.unclassed)
    (hclass : r.clusterAttribute ≠ "class") (e : NodeId) :
    d'.IsContainer r e ↔ d.IsContainer r e := by
  have hbare := bare_eq_of_unclassed_eq h
  rw [IsContainer, anchors_eq hbare, IsContainer]
  simp only [attribute?_eq h hclass, ancestor?_eq hbare]

/-- A call writes containers and its frame only. -/
theorem element?_setVisibility_of_spared (hclass : r.clusterAttribute ≠ "class") {d : Drawing}
    {cluster : String} {e : NodeId} (hcontainer : ¬d.IsContainer r e)
    (hframe : d.clusterFrame? r cluster ≠ some e) (trigger : Option NodeId) (visible : Bool) :
    (d.setVisibility r cluster trigger visible).1.element? e = d.element? e := by
  rw [setVisibility_fst hclass]
  refine element?_writeAll_of_forall_ne fun x hx => ?_
  rintro rfl
  rcases id_of_mem_visibilityWrites hx with hmember | hplaceholder | hid
  · exact hcontainer (isContainer_of_mem_clusterMembers hmember)
  · exact hcontainer (isContainer_of_mem_clusterMembers hplaceholder)
  · exact hframe hid

theorem element?_click_of_spared (hclass : r.clusterAttribute ≠ "class") {d : Drawing}
    {w : Wiring} {link e : NodeId} (hcontainer : ¬d.IsContainer r e)
    (hframe : ∀ call ∈ d.clickCalls r w link, call.1.clusterFrame? r call.2 ≠ some e) :
    (d.click r w link).1.element? e = d.element? e := by
  -- Calls move no container, so that a later call spares the element as the first one does.
  have hboth : (d.click r w link).1.unclassed = d.unclassed ∧
      (¬d.IsContainer r e → (d.click r w link).1.element? e = d.element? e) := by
    refine click_induction (R := fun d d' => d'.unclassed = d.unclassed ∧
      (¬d.IsContainer r e → d'.element? e = d.element? e)) (fun d => ⟨rfl, fun _ => rfl⟩) ?_ ?_
    · rintro a b c ⟨hab, ha⟩ ⟨hbc, hb⟩
      refine ⟨hbc.trans hab, fun hno => (hb ?_).trans (ha hno)⟩
      rwa [isContainer_congr hab hclass]
    · intro call hcall trigger visible
      exact ⟨(reclassed_setVisibility r call.1 call.2 trigger visible).unclassed, fun hno =>
        element?_setVisibility_of_spared hclass hno (hframe call hcall) trigger visible⟩
  exact hboth.2 hcontainer

/-- Wiring leaves the class list of what is no container as it is. -/
theorem class_wire_of_spared (hclass : r.clusterAttribute ≠ "class") {d : Drawing}
    {e : NodeId} (hcontainer : ¬(d.wire r).1.IsContainer r e) :
    (d.wire r).1.attribute? e "class" = d.attribute? e "class" := by
  -- What wiring hides are containers, once their links are stamped.
  have hhidden : ∀ id ∈ d.placeholderContainers r, id ≠ e := by
    rintro id hid rfl
    obtain ⟨link, hanchor, hrefers, hancestor⟩ := mem_placeholderContainers.mp hid
    refine hcontainer ⟨link, ?_, ?_, ?_⟩
    · rwa [anchors_eq (bare_wire d r)]
    · -- The link refers to something, so it was stamped.
      rw [refersToPlaceholder] at hrefers
      rw [attribute?_wire d r link hclass, if_pos ⟨hanchor, rfl⟩]
      rcases href : d.reference? r link with _ | c
      · simp [href] at hrefers
      · rfl
    · rwa [ancestor?_eq (bare_wire d r)]
  have hwrites : (d.wire r).1.element? e = (d.stampAll r d.anchors).element? e := by
    rw [wire_eq]
    refine element?_writeAll_of_forall_ne fun x hx => ?_
    obtain ⟨id, hid, rfl⟩ := List.mem_map.mp hx
    exact hhidden id hid
  rw [attribute?, hwrites, ← attribute?, class_stampAll hclass]

end Drawing

/-! ### Runs of any actions -/

/-- What can be done to a drawing: wiring it, a click with any wiring, or a single cluster
shown or hidden. -/
inductive FoldAction where
  | wire
  | click (w : Wiring) (link : NodeId)
  | setVisibility (cluster : String) (trigger : Option NodeId) (visible : Bool)
  deriving DecidableEq, Repr

namespace FoldAction

/-- The drawing after an action. -/
def apply (r : FoldRules) (d : Drawing) : FoldAction → Drawing
  | wire => (d.wire r).1
  | click w link => (d.click r w link).1
  | setVisibility cluster trigger visible => (d.setVisibility r cluster trigger visible).1

/-- The clusters that an action shows or hides, each with the drawing just before. -/
def calls (r : FoldRules) (d : Drawing) : FoldAction → List (Drawing × String)
  | wire => []
  | click w link => d.clickCalls r w link
  | setVisibility cluster _ _ => [(d, cluster)]

theorem reclassed_apply (r : FoldRules) (d : Drawing) {a : FoldAction} (h : a ≠ wire) :
    Drawing.Reclassed r d (a.apply r d) := by
  cases a with
  | wire => exact absurd rfl h
  | click w link => exact Drawing.reclassed_click r d w link
  | setVisibility cluster trigger visible =>
    exact Drawing.reclassed_setVisibility r d cluster trigger visible

end FoldAction

namespace Drawing

variable {r : FoldRules}

/-- The drawing after a run of actions. -/
def afterActions (d : Drawing) (r : FoldRules) (actions : List FoldAction) : Drawing :=
  actions.foldl (fun d a => a.apply r d) d

theorem afterActions_append (d : Drawing) (r : FoldRules) (actions more : List FoldAction) :
    d.afterActions r (actions ++ more) = (d.afterActions r actions).afterActions r more :=
  List.foldl_append

/-- Whether a run has no use for an element: in every drawing it comes by the element is no
container of a link with a cluster, and no cluster shown or hidden has it for a frame. -/
def Spares (d : Drawing) (r : FoldRules) (e : NodeId) : List FoldAction → Prop
  | [] => ¬d.IsContainer r e
  | a :: actions => ¬d.IsContainer r e ∧
    (∀ call ∈ a.calls r d, call.1.clusterFrame? r call.2 ≠ some e) ∧
    (a.apply r d).Spares r e actions

instance decidableSpares (r : FoldRules) (e : NodeId) :
    ∀ (d : Drawing) (actions : List FoldAction), Decidable (d.Spares r e actions)
  | _, [] => inferInstanceAs (Decidable (¬_))
  | d, a :: actions =>
    have := decidableSpares r e (a.apply r d) actions
    inferInstanceAs (Decidable (_ ∧ _ ∧ _))

theorem Spares.not_isContainer {d : Drawing} {e : NodeId} {actions : List FoldAction}
    (h : d.Spares r e actions) : ¬d.IsContainer r e := by
  cases actions with
  | nil => exact h
  | cons a actions => exact h.1

/-- What a run may change: class lists, and the clusters of links. -/
def isFree (d : Drawing) (r : FoldRules) (id : NodeId) (name : String) : Bool :=
  name = "class" || name = r.clusterAttribute && d.anchors.contains id

theorem retouched_apply (r : FoldRules) (d : Drawing) (a : FoldAction) :
    Retouched (d.isFree r) d (a.apply r d) := by
  by_cases h : a = .wire
  · subst h
    have hstamp : Retouched (d.isFree r) d (d.stampAll r d.anchors) :=
      (retouched_stampAll r d d.anchors).mono fun id name h => by
        rw [isFree, h, Bool.or_true]
    exact hstamp.trans ((reclassed_wire r d).retouched.mono fun id name h => by
      rw [isFree, h, Bool.true_or])
  · exact (FoldAction.reclassed_apply r d h).retouched.mono fun id name h => by
      rw [isFree, h, Bool.true_or]

theorem retouched_afterActions (r : FoldRules) (actions : List FoldAction) :
    ∀ (d : Drawing), Retouched (d.isFree r) d (d.afterActions r actions) := by
  induction actions with
  | nil => exact fun d => .refl _ d
  | cons a actions ih =>
    intro d
    have hstep := retouched_apply r d a
    -- Links stay links, so that the same attributes are free to change all along.
    have hfree : (a.apply r d).isFree r = d.isFree r := by
      funext id name
      rw [isFree, anchors_eq hstep.bare, isFree]
    exact hstep.trans (hfree ▸ ih (a.apply r d))

theorem reclassed_afterActions (r : FoldRules) {actions : List FoldAction}
    (h : .wire ∉ actions) : ∀ (d : Drawing), Reclassed r d (d.afterActions r actions) := by
  induction actions with
  | nil => exact fun d => .refl r d
  | cons a actions ih =>
    intro d
    have ha : a ≠ .wire := fun hwire => h (hwire ▸ List.mem_cons_self)
    exact (FoldAction.reclassed_apply r d ha).trans
      (ih (fun hmem => h (List.mem_cons_of_mem a hmem)) _)

section Classes

variable (hclass : r.clusterAttribute ≠ "class")
include hclass

theorem classRest_apply (hhidden : IsWord r.hiddenClass) (hcollapsed : IsWord r.collapsedClass)
    (d : Drawing) (a : FoldAction) (e : NodeId) :
    (a.apply r d).classRest r e = d.classRest r e := by
  by_cases h : a = .wire
  · subst h
    refine ((reclassed_wire r d).classRest hhidden hcollapsed e).trans ?_
    rw [classRest, class_stampAll hclass, classRest]
  · exact (FoldAction.reclassed_apply r d h).classRest hhidden hcollapsed e

theorem classRest_afterActions (hhidden : IsWord r.hiddenClass)
    (hcollapsed : IsWord r.collapsedClass) (actions : List FoldAction) :
    ∀ (d : Drawing) (e : NodeId), (d.afterActions r actions).classRest r e = d.classRest r e := by
  induction actions with
  | nil => exact fun _ _ => rfl
  | cons a actions ih =>
    intro d e
    exact (ih (a.apply r d) e).trans (classRest_apply hclass hhidden hcollapsed d a e)

theorem class_apply_of_spared {d : Drawing} {a : FoldAction} {e : NodeId}
    (hbefore : ¬d.IsContainer r e) (hafter : ¬(a.apply r d).IsContainer r e)
    (hframe : ∀ call ∈ a.calls r d, call.1.clusterFrame? r call.2 ≠ some e) :
    (a.apply r d).attribute? e "class" = d.attribute? e "class" := by
  cases a with
  | wire => exact class_wire_of_spared hclass hafter
  | click w link =>
    show (d.click r w link).1.attribute? e "class" = _
    rw [attribute?, element?_click_of_spared hclass hbefore hframe, ← attribute?]
  | setVisibility cluster trigger visible =>
    have hcall := hframe (d, cluster) (List.mem_singleton.mpr rfl)
    show (d.setVisibility r cluster trigger visible).1.attribute? e "class" = _
    rw [attribute?, element?_setVisibility_of_spared hclass hbefore hcall, ← attribute?]

theorem class_afterActions_of_spared {e : NodeId} {actions : List FoldAction} :
    ∀ {d : Drawing}, d.Spares r e actions →
    (d.afterActions r actions).attribute? e "class" = d.attribute? e "class" := by
  induction actions with
  | nil => exact fun _ => rfl
  | cons a actions ih =>
    rintro d ⟨hbefore, hframe, hrest⟩
    exact (ih hrest).trans
      (class_apply_of_spared hclass hbefore hrest.not_isContainer hframe)

end Classes

/-- Folding writes two class words.  Whatever is done to a drawing, wirings, clicks and calls
in any order: the nodes and how they hang together are the same, and of all attributes only
class lists and the clusters of links may differ, the latter by wirings only.  All words of a
class list but the two of folding stay in their order, and an element that the run has no use
for keeps its class list as it was written. -/
theorem only_class_words_change (hhidden : IsWord r.hiddenClass)
    (hcollapsed : IsWord r.collapsedClass) (d : Drawing) (actions : List FoldAction) :
    Retouched (d.isFree r) d (d.afterActions r actions) ∧
    (∀ before between after, actions = before ++ between ++ after → .wire ∉ between →
      Retouched (fun _ name => name = "class") (d.afterActions r before)
        (d.afterActions r (before ++ between))) ∧
    (r.clusterAttribute ≠ "class" →
      (∀ e, (d.afterActions r actions).classRest r e = d.classRest r e) ∧
      ∀ e, d.Spares r e actions →
        (d.afterActions r actions).attribute? e "class" = d.attribute? e "class") := by
  refine ⟨retouched_afterActions r actions d, ?_, fun hclass => ⟨?_, ?_⟩⟩
  · intro before between after _ hwire
    rw [afterActions_append]
    exact (reclassed_afterActions r hwire _).retouched
  · exact classRest_afterActions hclass hhidden hcollapsed actions d
  · exact fun e => class_afterActions_of_spared hclass

/-- The root of a drawing with two frames keeps its class list, blanks and all. -/
theorem only_class_words_change_framedPair :
    let actions := [.wire, .click (framedPair.wire {}).2 12, .setVisibility "m" none false]
    framedPair.Spares {} 0 actions ∧
      (framedPair.afterActions {} actions).attribute? 0 "class" = some "x  x" := by
  intro actions
  have hspared : framedPair.Spares {} 0 actions := by decide +kernel
  have h := only_class_words_change FoldRules.separate_default.hidden
    FoldRules.separate_default.collapsed framedPair actions
  exact ⟨hspared, ((h.2.2 (by decide)).2 0 hspared).trans rfl⟩

end Drawing
end GraphFolding
