/-
Folding as a list of single writes.

Showing or hiding a cluster comes down to class words switched in single elements, one after
the other, and which ones is known beforehand:

* `Element.switchClass`, `setClass_eq_modifyElement` — a word switched in one element, whose
  new class list depends on the old one alone;
* `ClassWrite`, `Drawing.writeAll` — one write, and a list of them;
* `writeAll_comm` — lists of writes that share no element are done in either order;
* `Drawing.Reclassed`, `reclassed_setVisibility` — a drawing after writes of the two words of
  folding, whatever else the rules say;
* `Drawing.visibilityWrites`, `setVisibility_fst` — the writes that show or hide a cluster.
-/
import GraphFolding.Proofs.Visibility
namespace GraphFolding

/-- An element with one word of its class list switched on or off; where there is no class
list, nothing is switched off. -/
def Element.switchClass (word : String) (on : Bool) (e : Element) : Element :=
  match on, e.attribute? "class" with
  | true, value => e.setAttribute "class" (ClassList.switch (value.getD "") word true)
  | false, some value => e.setAttribute "class" (ClassList.switch value word false)
  | false, none => e

/-- One word of the class list of one element switched on or off. -/
structure ClassWrite where
  id : NodeId
  word : String
  on : Bool
  deriving DecidableEq, Repr

namespace Drawing

/-! ### Changes of different elements -/

theorem eq_of_getElem?_eq {d d' : Drawing} (h : ∀ e : NodeId, d'.nodes[e]? = d.nodes[e]?)
    (hroot : d'.root = d.root) (hprologue : d'.prologue = d.prologue)
    (hepilogue : d'.epilogue = d.epilogue) : d' = d := by
  have hnodes : d'.nodes = d.nodes := Array.ext_getElem? h
  cases d
  cases d'
  simp_all

theorem modifyElement_congr {d : Drawing} {id : NodeId} {change change' : Element → Element}
    (h : ∀ e, d.element? id = some e → change e = change' e) :
    d.modifyElement id change = d.modifyElement id change' := by
  refine eq_of_getElem?_eq (fun e => ?_) rfl rfl rfl
  rw [getElem?_modifyElement, getElem?_modifyElement]
  by_cases hid : id = e
  · subst hid
    rw [if_pos rfl, if_pos rfl]
    rcases hnode : d.nodes[id]? with _ | ⟨content, parent, children⟩
    · rfl
    · cases content with
      | element el =>
        have hel : change el = change' el := h el (by rw [element?_eq, hnode]; rfl)
        simp only [Option.map_some, Node.mapElement, hel]
      | _ => rfl
  · rw [if_neg hid, if_neg hid]

theorem modifyElement_id (d : Drawing) (id : NodeId) : d.modifyElement id (fun e => e) = d := by
  refine eq_of_getElem?_eq (fun e => ?_) rfl rfl rfl
  rw [getElem?_modifyElement]
  split
  · rcases d.nodes[e]? with _ | ⟨content, parent, children⟩
    · rfl
    · cases content <;> rfl
  · rfl

theorem modifyElement_comm {a b : NodeId} (h : a ≠ b) (d : Drawing)
    (change change' : Element → Element) :
    (d.modifyElement a change).modifyElement b change' =
      (d.modifyElement b change').modifyElement a change := by
  refine eq_of_getElem?_eq (fun e => ?_) rfl rfl rfl
  simp only [getElem?_modifyElement]
  by_cases ha : a = e
  · have hb : b ≠ e := fun hb => h (ha.trans hb.symm)
    simp only [if_pos ha, if_neg hb]
  · simp only [if_neg ha]

/-- A class word is switched within its element: nothing else of the drawing is looked at. -/
theorem setClass_eq_modifyElement (d : Drawing) (id : NodeId) (word : String) (on : Bool) :
    d.setClass id word on = d.modifyElement id (·.switchClass word on) := by
  unfold setClass addClass removeClass setAttribute
  cases on with
  | true =>
    rw [if_pos rfl]
    refine modifyElement_congr fun e he => ?_
    rw [attribute?, he, Option.bind_some, Element.switchClass]
  | false =>
    rw [if_neg (by decide)]
    rcases hvalue : d.attribute? id "class" with _ | value
    · -- There is no class list to remove the word from.
      show d = _
      refine (modifyElement_id d id).symm.trans (modifyElement_congr fun e he => ?_)
      rw [attribute?, he, Option.bind_some] at hvalue
      simp only [Element.switchClass, hvalue]
    · show d.modifyElement id _ = _
      refine modifyElement_congr fun e he => ?_
      rw [attribute?, he, Option.bind_some] at hvalue
      simp only [Element.switchClass, hvalue]

theorem element?_setClass_of_ne {id e : NodeId} (h : id ≠ e) (d : Drawing) (word : String)
    (on : Bool) : (d.setClass id word on).element? e = d.element? e := by
  rw [setClass_eq_modifyElement, element?_modifyElement, if_neg h]

/-! ### Lists of writes -/

/-- Writes done one after the other. -/
def writeAll (d : Drawing) (writes : List ClassWrite) : Drawing :=
  writes.foldl (fun d x => d.setClass x.id x.word x.on) d

theorem writeAll_cons (d : Drawing) (x : ClassWrite) (writes : List ClassWrite) :
    d.writeAll (x :: writes) = (d.setClass x.id x.word x.on).writeAll writes :=
  List.foldl_cons ..

theorem writeAll_append (d : Drawing) (writes more : List ClassWrite) :
    d.writeAll (writes ++ more) = (d.writeAll writes).writeAll more :=
  List.foldl_append

/-- Writes change class lists only. -/
theorem unclassed_writeAll (writes : List ClassWrite) :
    ∀ (d : Drawing), (d.writeAll writes).unclassed = d.unclassed := by
  induction writes with
  | nil => exact fun _ => rfl
  | cons x writes ih =>
    intro d
    rw [writeAll_cons, ih, unclassed_setClass]

/-- An element that no write is about is left as it is. -/
theorem element?_writeAll_of_forall_ne {e : NodeId} {writes : List ClassWrite} :
    ∀ {d : Drawing}, (∀ x ∈ writes, x.id ≠ e) →
    (d.writeAll writes).element? e = d.element? e := by
  induction writes with
  | nil => exact fun _ => rfl
  | cons x writes ih =>
    intro d h
    rw [writeAll_cons, ih fun y hy => h y (List.mem_cons_of_mem x hy),
      element?_setClass_of_ne (h x List.mem_cons_self)]

theorem setClass_writeAll_comm {x : ClassWrite} {writes : List ClassWrite} :
    ∀ {d : Drawing}, (∀ y ∈ writes, x.id ≠ y.id) →
    (d.setClass x.id x.word x.on).writeAll writes =
      (d.writeAll writes).setClass x.id x.word x.on := by
  induction writes with
  | nil => exact fun _ => rfl
  | cons y writes ih =>
    intro d h
    have hswap : (d.setClass x.id x.word x.on).setClass y.id y.word y.on =
        (d.setClass y.id y.word y.on).setClass x.id x.word x.on := by
      simp only [setClass_eq_modifyElement]
      exact modifyElement_comm (h y List.mem_cons_self) d _ _
    rw [writeAll_cons, writeAll_cons, hswap, ih fun z hz => h z (List.mem_cons_of_mem y hz)]

/-- Lists of writes that share no element are done in either order. -/
theorem writeAll_comm {writes more : List ClassWrite} : ∀ {d : Drawing},
    (∀ x ∈ writes, ∀ y ∈ more, x.id ≠ y.id) →
    (d.writeAll writes).writeAll more = (d.writeAll more).writeAll writes := by
  induction writes with
  | nil => exact fun _ => rfl
  | cons x writes ih =>
    intro d h
    -- The first write is moved past the whole second list, the others by induction.
    rw [writeAll_cons, writeAll_cons, ih fun y hy => h y (List.mem_cons_of_mem x hy),
      setClass_writeAll_comm (h x List.mem_cons_self)]

/-! ### The writes that show or hide a cluster -/

variable {r : FoldRules}

/-- The writes that show or hide a cluster: its frame, its members, its placeholder edges. -/
def visibilityWrites (d : Drawing) (r : FoldRules) (cluster : String) (trigger : Option NodeId)
    (visible : Bool) : List ClassWrite :=
  (d.clusterFrame? r cluster).toList.map (⟨·, r.hiddenClass, !visible⟩) ++
    (d.clusterMembers r cluster).map (fun id => ⟨id, r.markOf trigger id, !visible⟩) ++
    (d.clusterMembers r (r.placeholderFor cluster)).map
      (⟨·, r.hiddenClass, !(trigger.isSome && !visible)⟩)

/-- Each of these writes is about a member, a placeholder edge or the frame. -/
theorem id_of_mem_visibilityWrites {d : Drawing} {cluster : String} {trigger : Option NodeId}
    {visible : Bool} {x : ClassWrite} (hx : x ∈ d.visibilityWrites r cluster trigger visible) :
    x.id ∈ d.clusterMembers r cluster ∨ x.id ∈ d.clusterMembers r (r.placeholderFor cluster) ∨
      d.clusterFrame? r cluster = some x.id := by
  rw [visibilityWrites, List.mem_append, List.mem_append] at hx
  rcases hx with (hx | hx) | hx
  · obtain ⟨id, hid, rfl⟩ := List.mem_map.mp hx
    exact .inr (.inr (Option.mem_toList.mp hid))
  · obtain ⟨id, hid, rfl⟩ := List.mem_map.mp hx
    exact .inl hid
  · obtain ⟨id, hid, rfl⟩ := List.mem_map.mp hx
    exact .inr (.inl hid)

/-- Each of them is of the word for what is hidden, if it does not mark the trigger. -/
theorem word_of_mem_visibilityWrites {d : Drawing} {cluster : String} {trigger : Option NodeId}
    {visible : Bool} {x : ClassWrite} (hx : x ∈ d.visibilityWrites r cluster trigger visible) :
    x.word = r.hiddenClass ∨ trigger = some x.id ∧ x.word = r.collapsedClass := by
  rw [visibilityWrites, List.mem_append, List.mem_append] at hx
  rcases hx with (hx | hx) | hx
  · obtain ⟨_, -, rfl⟩ := List.mem_map.mp hx
    exact .inl rfl
  · obtain ⟨id, -, rfl⟩ := List.mem_map.mp hx
    unfold FoldRules.markOf
    split
    · rename_i htrigger
      exact .inr ⟨htrigger, rfl⟩
    · exact .inl rfl
  · obtain ⟨_, -, rfl⟩ := List.mem_map.mp hx
    exact .inl rfl

theorem toggleFrame_eq_writeAll (d : Drawing) (r : FoldRules) (cluster : String)
    (visible : Bool) : d.toggleFrame r cluster visible =
      d.writeAll ((d.clusterFrame? r cluster).toList.map (⟨·, r.hiddenClass, !visible⟩)) := by
  unfold toggleFrame
  rcases d.clusterFrame? r cluster with _ | frame <;> rfl

theorem toggleElements_eq_writeAll (d : Drawing) (r : FoldRules) (trigger : Option NodeId)
    (visible : Bool) (ids : List NodeId) : d.toggleElements r trigger visible ids =
      d.writeAll (ids.map fun id => ⟨id, r.markOf trigger id, !visible⟩) := by
  rw [toggleElements, writeAll, List.foldl_map]
  exact congrArg (List.foldl · d ids) (funext fun d => funext fun id => toggleElement_eq ..)

/-- A drawing after some writes of the two words of folding. -/
def Reclassed (r : FoldRules) (d d' : Drawing) : Prop :=
  ∃ writes : List ClassWrite, d' = d.writeAll writes ∧
    ∀ x ∈ writes, x.word = r.hiddenClass ∨ x.word = r.collapsedClass

theorem Reclassed.refl (r : FoldRules) (d : Drawing) : Reclassed r d d := ⟨[], rfl, by simp⟩

theorem Reclassed.trans {d d' d'' : Drawing} (h : Reclassed r d d') (h' : Reclassed r d' d'') :
    Reclassed r d d'' := by
  obtain ⟨writes, rfl, hwrites⟩ := h
  obtain ⟨more, rfl, hmore⟩ := h'
  refine ⟨writes ++ more, (writeAll_append ..).symm, fun x hx => ?_⟩
  exact (List.mem_append.mp hx).elim (hwrites x) (hmore x)

theorem reclassed_toggleFrame (r : FoldRules) (d : Drawing) (cluster : String)
    (visible : Bool) : Reclassed r d (d.toggleFrame r cluster visible) := by
  refine ⟨_, toggleFrame_eq_writeAll d r cluster visible, fun x hx => ?_⟩
  obtain ⟨_, -, rfl⟩ := List.mem_map.mp hx
  exact .inl rfl

theorem reclassed_toggleElements (r : FoldRules) (d : Drawing) (trigger : Option NodeId)
    (visible : Bool) (ids : List NodeId) :
    Reclassed r d (d.toggleElements r trigger visible ids) := by
  refine ⟨_, toggleElements_eq_writeAll d r trigger visible ids, fun x hx => ?_⟩
  obtain ⟨id, -, rfl⟩ := List.mem_map.mp hx
  exact markOf_eq_or r trigger id

/-- Whatever the rules are, showing or hiding a cluster writes the two words of folding. -/
theorem reclassed_setVisibility (r : FoldRules) (d : Drawing) (cluster : String)
    (trigger : Option NodeId) (visible : Bool) :
    Reclassed r d (d.setVisibility r cluster trigger visible).1 :=
  ((reclassed_toggleFrame r d cluster visible).trans
    (reclassed_toggleElements r _ trigger visible _)).trans
    (reclassed_toggleElements r _ none _ _)

theorem setVisibility_fst (hclass : r.clusterAttribute ≠ "class") (d : Drawing)
    (cluster : String) (trigger : Option NodeId) (visible : Bool) :
    (d.setVisibility r cluster trigger visible).1 =
      d.writeAll (d.visibilityWrites r cluster trigger visible) := by
  -- The placeholder edges are looked up after the first writes, which move no cluster.
  have hmembers : ((d.toggleFrame r cluster visible).toggleElements r trigger visible
      (d.clusterMembers r cluster)).clusterMembers r (r.placeholderFor cluster) =
      d.clusterMembers r (r.placeholderFor cluster) := by
    refine clusterMembers_eq ?_ hclass _
    rw [toggleElements_eq_writeAll, unclassed_writeAll, toggleFrame_eq_writeAll,
      unclassed_writeAll]
  have hmark : ∀ id, r.markOf none id = r.hiddenClass := fun _ => rfl
  rw [visibilityWrites, writeAll_append, writeAll_append, ← toggleFrame_eq_writeAll,
    ← toggleElements_eq_writeAll]
  simp only [setVisibility]
  rw [hmembers, toggleElements_eq_writeAll]
  simp only [hmark]

end Drawing

/-- Who folds a drawing differently changes none of the writes to come. -/
theorem Refolded.visibilityWrites_eq_of_ne {r : FoldRules} {d d' : Drawing}
    (h : Refolded r d d') (hhidden : r.frameClass ≠ r.hiddenClass)
    (hcollapsed : r.frameClass ≠ r.collapsedClass) (hclass : r.clusterAttribute ≠ "class")
    (cluster : String) (trigger : Option NodeId) (visible : Bool) :
    d'.visibilityWrites r cluster trigger visible =
      d.visibilityWrites r cluster trigger visible := by
  rw [Drawing.visibilityWrites, h.clusterFrame?_eq_of_ne hhidden hcollapsed,
    Drawing.clusterMembers_eq h.rest hclass, Drawing.clusterMembers_eq h.rest hclass,
    Drawing.visibilityWrites]

end GraphFolding
