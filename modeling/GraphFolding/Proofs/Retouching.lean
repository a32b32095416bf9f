/-
What writing a few attributes leaves alone.

* `Retouched` — two drawings that are the same but for attributes that are free to change; all
  others keep their values, and every attribute keeps its place;
* `Drawing.classRest` — the class list of an element without the two words of folding;
* `click_induction` — what every single call of a click keeps, the click keeps, whatever the
  rules are;
* `Reclassed.retouched`, `Reclassed.classRest`, `reclassed_click`, `retouched_stampAll` — what
  clicks and wirings may change.
-/
import GraphFolding.Proofs.ClassWrites
import GraphFolding.Proofs.ClickEffect
import GraphFolding.Proofs.WiringEffect
namespace GraphFolding

open ClassList (IsWord)

/-! ### Entries in their places -/

theorem keys_setEntry (name value : String) (l : List (String × String)) :
    l.map Prod.fst <+: (setEntry name value l).map Prod.fst := by
  induction l with
  | nil => exact List.nil_prefix
  | cons entry rest ih =>
    obtain ⟨key, old⟩ := entry
    rw [setEntry]
    split
    · exact List.prefix_refl _
    · exact (List.prefix_cons_inj key).mpr ih

/-- Entries that are not free to change are the same after one that is free was set. -/
theorem filter_setEntry_of_free {free : String → Bool} {name : String} (h : free name = true)
    (value : String) (l : List (String × String)) :
    (setEntry name value l).filter (!free ·.1) = l.filter (!free ·.1) := by
  -- Who leaves out all that is free to change, leaves out the entries of `name`.
  have hnarrow : ∀ l : List (String × String),
      l.filter (!free ·.1) = (l.filter (·.1 ≠ name)).filter (!free ·.1) := by
    intro l
    rw [List.filter_filter]
    refine List.filter_congr fun entry _ => ?_
    by_cases hname : entry.1 = name
    · simp [hname, h]
    · simp [hname]
  rw [hnarrow, filter_setEntry, ← hnarrow]

namespace Drawing

/-- The attributes of an element, in order; other nodes have none. -/
def attributes (d : Drawing) (id : NodeId) : List (String × String) :=
  ((d.element? id).map (·.attributes)).getD []

theorem attributes_setAttribute (d : Drawing) (id e : NodeId) (name value : String) :
    (d.setAttribute id name value).attributes e =
      if id = e ∧ d.isElement e then setEntry name value (d.attributes e)
      else d.attributes e := by
  rw [attributes, setAttribute, element?_modifyElement, attributes, isElement]
  by_cases h : id = e
  · rcases d.element? e with _ | el <;> simp [h, Element.setAttribute]
  · simp [h]

end Drawing

/-- Drawings that differ in attributes free to change, and in nothing else; new attributes
stand behind all others. -/
structure Retouched (free : NodeId → String → Bool) (d d' : Drawing) : Prop where
  bare : d'.bare = d.bare
  order : ∀ id, (d.attributes id).map Prod.fst <+: (d'.attributes id).map Prod.fst
  kept : ∀ id, (d'.attributes id).filter (!free id ·.1) = (d.attributes id).filter (!free id ·.1)

namespace Retouched

open Drawing

variable {free free' : NodeId → String → Bool} {d d' d'' : Drawing}

theorem refl (free : NodeId → String → Bool) (d : Drawing) : Retouched free d d :=
  ⟨rfl, fun _ => List.prefix_refl _, fun _ => rfl⟩

theorem trans (h : Retouched free d d') (h' : Retouched free d' d'') :
    Retouched free d d'' where
  bare := h'.bare.trans h.bare
  order id := (h.order id).trans (h'.order id)
  kept id := (h'.kept id).trans (h.kept id)

theorem foldl {α : Type} {step : Drawing → α → Drawing} {l : List α} :
    ∀ {d : Drawing}, (∀ d, ∀ a ∈ l, Retouched free d (step d a)) →
    Retouched free d (l.foldl step d) := by
  induction l with
  | nil => exact fun _ => refl free _
  | cons a l ih =>
    intro d hstep
    exact (hstep d a List.mem_cons_self).trans
      (ih fun d b hb => hstep d b (List.mem_cons_of_mem a hb))

/-- More may be free to change. -/
theorem mono (h : Retouched free d d') (hle : ∀ id name, free id name → free' id name) :
    Retouched free' d d' where
  bare := h.bare
  order := h.order
  kept id := by
    have hnarrow : ∀ l : List (String × String),
        l.filter (!free' id ·.1) = (l.filter (!free id ·.1)).filter (!free' id ·.1) := by
      intro l
      rw [List.filter_filter]
      refine List.filter_congr fun entry _ => ?_
      have := hle id entry.1
      cases hfree : free id entry.1 <;> simp_all
    rw [hnarrow, h.kept, ← hnarrow]

theorem setAttribute {id : NodeId} {name : String} (h : free id name = true) (d : Drawing)
    (value : String) : Retouched free d (d.setAttribute id name value) where
  bare := bare_setAttribute d id name value
  order e := by
    rw [attributes_setAttribute]
    split
    · exact keys_setEntry name value _
    · exact List.prefix_refl _
  kept e := by
    rw [attributes_setAttribute]
    split
    · rename_i he
      exact filter_setEntry_of_free (he.1 ▸ h) value _
    · rfl

theorem setClass {id : NodeId} (h : free id "class" = true) (d : Drawing) (word : String)
    (on : Bool) : Retouched free d (d.setClass id word on) := by
  unfold Drawing.setClass addClass removeClass
  split
  · exact setAttribute h d _
  · split
    · exact setAttribute h d _
    · exact refl free d

end Retouched

/-! ### Class lists without the words of folding -/

theorem Element.distinct_switchClass {word : String} (hw : IsWord word) (on : Bool)
    (e : Element) :
    ClassList.distinct (((e.switchClass word on).attribute? "class").getD "") =
      ClassList.switchWord (ClassList.distinct ((e.attribute? "class").getD "")) word on := by
  have hset : ∀ value, (e.setAttribute "class" value).attribute? "class" = some value := by
    intro value
    rw [Element.attribute?, Element.setAttribute, lookup_setEntry, if_pos rfl]
  unfold Element.switchClass
  cases on with
  | true =>
    simp only [hset, Option.getD_some]
    exact ClassList.distinct_switch hw _ true
  | false =>
    rcases hvalue : e.attribute? "class" with _ | value
    · -- Without a class list there is no word to lose.
      have hempty : ClassList.distinct "" = [] := rfl
      simp only [hvalue, Option.getD_none, hempty]
      rfl
    · simp only [hset, Option.getD_some]
      exact ClassList.distinct_switch hw _ false

namespace FoldRules

/-- Whether a class word is none of the two words of folding. -/
def isForeign (r : FoldRules) (word : String) : Bool :=
  word ≠ r.hiddenClass && word ≠ r.collapsedClass

/-- Switching a word of folding leaves all other words where they are. -/
theorem filter_switchWord {r : FoldRules} {word : String} (hword : r.isForeign word = false)
    (present : List String) (on : Bool) :
    (ClassList.switchWord present word on).filter r.isForeign = present.filter r.isForeign := by
  unfold ClassList.switchWord
  cases on with
  | true =>
    rw [if_pos rfl]
    split
    · rfl
    · rw [List.filter_append, List.filter_cons, hword]
      simp
  | false =>
    rw [if_neg (by decide), List.filter_filter]
    refine List.filter_congr fun u _ => ?_
    by_cases hu : u = word
    · rw [hu, hword, Bool.false_and]
    · simp [hu]

end FoldRules

namespace Drawing

variable {r : FoldRules}

/-- The words of a class list, each once, without the two words of folding. -/
def classRest (d : Drawing) (r : FoldRules) (id : NodeId) : List String :=
  (ClassList.distinct ((d.attribute? id "class").getD "")).filter r.isForeign

theorem classRest_setClass {word : String} (hw : IsWord word) (hword : r.isForeign word = false)
    (d : Drawing) (id e : NodeId) (on : Bool) :
    (d.setClass id word on).classRest r e = d.classRest r e := by
  rw [classRest, classRest]
  by_cases hid : id = e
  · subst hid
    rw [attribute?, attribute?, setClass_eq_modifyElement, element?_modifyElement, if_pos rfl]
    rcases d.element? id with _ | el
    · rfl
    · simp only [Option.map_some, Option.bind_some]
      rw [el.distinct_switchClass hw, FoldRules.filter_switchWord hword]
  · rw [attribute?, element?_setClass_of_ne hid, ← attribute?]

/-! ### The calls of a click -/

/-- The clusters that a cascade shows or hides, each with the drawing just before. -/
def cascadeCalls (r : FoldRules) (cluster : String) (visible : Bool) :
    Drawing → List NodeId → List (Drawing × String)
  | _, [] => []
  | d, header :: headers =>
    match d.attribute? header r.clusterAttribute with
    | some sub =>
      if r.isBelow sub cluster then
        (d, sub) :: cascadeCalls r cluster visible (d.setVisibility r sub none visible).1 headers
      else cascadeCalls r cluster visible d headers
    | none => cascadeCalls r cluster visible d headers

/-- The clusters that a click shows or hides, each with the drawing just before. -/
def clickCalls (d : Drawing) (r : FoldRules) (w : Wiring) (link : NodeId) :
    List (Drawing × String) :=
  match d.target? r w link with
  | some (cluster, container) =>
    let visible := d.hasClass container r.collapsedClass
    cascadeCalls r cluster visible d w.headers ++
      [((d.cascade r w.headers cluster visible).1, cluster)]
  | none => []

section Calls

variable {R : Drawing → Drawing → Prop} (hrefl : ∀ d, R d d)
  (htrans : ∀ {a b c}, R a b → R b c → R a c)
include hrefl htrans

theorem cascade_induction {cluster : String} {visible : Bool} {headers : List NodeId} :
    ∀ {d : Drawing} {toggles : List Toggle},
    (∀ call ∈ cascadeCalls r cluster visible d headers,
      R call.1 (call.1.setVisibility r call.2 none visible).1) →
    R d (headers.foldl (cascadeHeader r cluster visible) (d, toggles)).1 := by
  -- `cascadeCalls` lists a header just where `cascadeHeader` makes a call.
  induction headers with
  | nil => exact fun _ => hrefl _
  | cons header headers ih =>
    intro d toggles hcall
    rw [cascadeCalls] at hcall
    rw [List.foldl_cons, cascadeHeader]
    simp only []
    rcases hsub : d.attribute? header r.clusterAttribute with _ | sub
    · rw [hsub] at hcall
      exact ih hcall
    · rw [hsub] at hcall
      simp only [] at hcall ⊢
      by_cases hbelow : r.isBelow sub cluster = true
      · rw [if_pos hbelow] at hcall ⊢
        exact htrans (hcall _ List.mem_cons_self)
          (ih fun call h => hcall call (List.mem_cons_of_mem _ h))
      · rw [if_neg hbelow] at hcall ⊢
        exact ih hcall

/-- What the calls of a click keep, one after the other, the click keeps. -/
theorem click_induction {w : Wiring} {d : Drawing} {link : NodeId}
    (hcall : ∀ call ∈ d.clickCalls r w link, ∀ trigger visible,
      R call.1 (call.1.setVisibility r call.2 trigger visible).1) :
    R d (d.click r w link).1 := by
  rcases h : d.target? r w link with _ | ⟨cluster, container⟩
  · rw [click_of_target?_eq_none h]
    exact hrefl d
  · have hcalls : d.clickCalls r w link =
        cascadeCalls r cluster (d.hasClass container r.collapsedClass) d w.headers ++
          [((d.cascade r w.headers cluster (d.hasClass container r.collapsedClass)).1,
            cluster)] := by
      rw [clickCalls, h]
    rw [hcalls] at hcall
    have hcascade : R d (d.cascade r w.headers cluster (d.hasClass container r.collapsedClass)).1 :=
      cascade_induction hrefl htrans fun call hmem =>
        hcall call (List.mem_append_left _ hmem) none _
    have hlast := hcall _ (List.mem_append_right _ (List.mem_singleton.mpr rfl))
      (some container) (d.hasClass container r.collapsedClass)
    rw [click_of_target?_eq_some h]
    dsimp only
    exact htrans hcascade hlast

end Calls

/-! ### Writes of the two words -/

namespace Reclassed

variable {d d' : Drawing}

theorem unclassed (h : Reclassed r d d') : d'.unclassed = d.unclassed := by
  obtain ⟨writes, rfl, -⟩ := h
  exact unclassed_writeAll writes d

theorem retouched (h : Reclassed r d d') : Retouched (fun _ name => name = "class") d d' := by
  obtain ⟨writes, rfl, -⟩ := h
  exact Retouched.foldl fun d x _ => .setClass (decide_eq_true rfl) d x.word x.on

theorem classRest (h : Reclassed r d d') (hhidden : IsWord r.hiddenClass)
    (hcollapsed : IsWord r.collapsedClass) (e : NodeId) :
    d'.classRest r e = d.classRest r e := by
  obtain ⟨writes, rfl, hwrites⟩ := h
  induction writes generalizing d with
  | nil => rfl
  | cons x writes ih =>
    have hrest := ih (d := d.setClass x.id x.word x.on)
      fun y hy => hwrites y (List.mem_cons_of_mem x hy)
    rw [writeAll_cons, hrest]
    rcases hwrites x List.mem_cons_self with hword | hword
    · rw [hword]
      exact classRest_setClass hhidden (by simp [FoldRules.isForeign]) d x.id e x.on
    · rw [hword]
      exact classRest_setClass hcollapsed (by simp [FoldRules.isForeign]) d x.id e x.on

/-- Writes of the two words fold the drawing differently. -/
theorem refolded (h : Reclassed r d d') (hhidden : IsWord r.hiddenClass)
    (hcollapsed : IsWord r.collapsedClass) : Refolded r d d' where
  rest := h.unclassed
  words id word hword hword' := by
    have hforeign : r.isForeign word = true := by simp [FoldRules.isForeign, hword, hword']
    have hmem : ∀ d : Drawing, d.hasClass id word = decide (word ∈ d.classRest r id) := by
      intro d
      rw [hasClass_eq_decide, Drawing.classRest]
      rcases d.attribute? id "class" with _ | value
      · rfl
      · simp [ClassList.mem_distinct, hforeign]
    rw [hmem, hmem, h.classRest hhidden hcollapsed]

end Reclassed

/-- Whatever the rules are, a click writes the two words of folding. -/
theorem reclassed_click (r : FoldRules) (d : Drawing) (w : Wiring) (link : NodeId) :
    Reclassed r d (d.click r w link).1 :=
  click_induction (.refl r) .trans fun call _ trigger visible =>
    reclassed_setVisibility r call.1 call.2 trigger visible

theorem reclassed_wire (r : FoldRules) (d : Drawing) :
    Reclassed r (d.stampAll r d.anchors) (d.wire r).1 := by
  rw [wire_eq]
  refine ⟨_, rfl, fun x hx => ?_⟩
  obtain ⟨_, -, rfl⟩ := List.mem_map.mp hx
  exact .inl rfl

theorem retouched_stampAll (r : FoldRules) (d : Drawing) (links : List NodeId) :
    Retouched (fun id name => name = r.clusterAttribute && links.contains id) d
      (d.stampAll r links) := by
  refine Retouched.foldl fun d link hlink => ?_
  unfold stampLink
  split
  · exact .setAttribute (by simp [hlink]) d _
  · exact .refl _ d

theorem class_stampAll (hclass : r.clusterAttribute ≠ "class") (d : Drawing)
    (links : List NodeId) (e : NodeId) :
    (d.stampAll r links).attribute? e "class" = d.attribute? e "class" := by
  have hother : ¬(e = e ∧ "class" = r.clusterAttribute ∧ d.isElement e) :=
    fun h => hclass h.2.1.symm
  rw [attribute?_stampAll, attribute?_stampLink, if_neg hother, ite_self]

end Drawing
end GraphFolding
