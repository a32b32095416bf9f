/-
A click undone by a second one.

The first click on an unfolded cluster hides what is in sight and shows its placeholder edges; the
second one runs the same cascade the other way.  Clusters may overlap in any way:

* `Drawing.UnfoldedAt` — everything that a click on a cluster writes is unfolded;
* `Drawing.NeatAt` — the class lists that a click writes are in normal form, with the word for
  what is hidden at their ends;
* `hasClass_click_click` — two clicks restore the words of every class list;
* `click_click_eq_self` — two clicks restore the whole drawing, if it is neat;
* `click_undone` — both, for drawings that were read and wired.
-/
import GraphFolding.Proofs.Commuting
import GraphFolding.Proofs.RepeatedCalls
namespace GraphFolding

open ClassList (IsWord)

namespace ClassList

/-! ### Words at the end of a list -/

/-- Whether a class list is in normal form: distinct words joined by single spaces. -/
def IsNormal (value : String) : Prop := " ".intercalate (distinct value) = value

/-- Whether a word, where it stands in a list, stands there last. -/
def EndsIn (words : List String) (word : String) : Prop :=
  word ∈ words → words.getLast? = some word

instance (value : String) : Decidable (IsNormal value) := inferInstanceAs (Decidable (_ = _))

instance (words : List String) (word : String) : Decidable (EndsIn words word) :=
  inferInstanceAs (Decidable (_ → _))

theorem EndsIn.switchWord {words : List String} {word : String} (h : EndsIn words word)
    (on : Bool) : EndsIn (switchWord words word on) word := by
  intro hmem
  unfold ClassList.switchWord at hmem ⊢
  cases on with
  | true =>
    rw [if_pos rfl]
    split
    · rename_i hcontains
      exact h (List.contains_iff_mem.mp hcontains)
    · exact List.getLast?_concat
  | false => simp at hmem

theorem EndsIn.switchWords {word : String} {writes : List ClassWrite}
    (hword : ∀ x ∈ writes, x.word = word) : ∀ {words : List String}, EndsIn words word →
    EndsIn (switchWords words writes) word := by
  induction writes with
  | nil => exact id
  | cons x writes ih =>
    intro words h
    rw [switchWords_cons, hword x List.mem_cons_self]
    exact ih (fun y hy => hword y (List.mem_cons_of_mem x hy)) (h.switchWord x.on)

/-- A list without repeats that a word ends is known from its other words. -/
theorem EndsIn.eq_append {words : List String} {word : String} (h : EndsIn words word)
    (hnodup : words.Nodup) :
    words = words.filter (· ≠ word) ++ if word ∈ words then [word] else [] := by
  by_cases hmem : word ∈ words
  · obtain ⟨others, rfl⟩ := List.getLast?_eq_some_iff.mp (h hmem)
    have hother : ∀ u ∈ others, u ≠ word := by
      rintro u hu rfl
      exact (List.nodup_append.mp hnodup).2.2 u hu u (List.mem_singleton.mpr rfl) rfl
    rw [if_pos hmem, List.filter_append, List.filter_eq_self.mpr fun u hu => by simpa using hother u hu]
    simp
  · rw [if_neg hmem, List.append_nil, List.filter_eq_self.mpr fun u hu => ?_]
    simpa using fun hu' : u = word => hmem (hu' ▸ hu)

/-- Writes of words that stand in a list neither before nor after leave it as it is. -/
theorem switchWords_eq_self_of_absent {kept : String → Bool} {words : List String}
    {writes : List ClassWrite} (hword : ∀ x ∈ writes, kept x.word = false)
    (hbefore : ∀ u ∈ words, kept u = true) (hafter : ∀ u ∈ switchWords words writes, kept u = true) :
    switchWords words writes = words := by
  rw [← List.filter_eq_self.mpr hafter, filter_switchWords_of_forall hword,
    List.filter_eq_self.mpr hbefore]

/-- Writes of a word that can stand only at the end of a list leave it as it is, if they leave
that word. -/
theorem EndsIn.switchWords_eq_self {words : List String} {word : String}
    (h : EndsIn words word) (hnodup : words.Nodup) {writes : List ClassWrite}
    (hword : ∀ x ∈ writes, x.word = word)
    (hmem : word ∈ ClassList.switchWords words writes ↔ word ∈ words) :
    ClassList.switchWords words writes = words := by
  have hothers : (ClassList.switchWords words writes).filter (· ≠ word) =
      words.filter (· ≠ word) :=
    filter_switchWords_of_forall (fun x hx => by simp [hword x hx]) words
  calc ClassList.switchWords words writes
    _ = (ClassList.switchWords words writes).filter (· ≠ word) ++
        if word ∈ ClassList.switchWords words writes then [word] else [] :=
      (h.switchWords hword).eq_append (nodup_switchWords writes hnodup)
    _ = words.filter (· ≠ word) ++ if word ∈ words then [word] else [] := by
      rw [hothers]
      simp only [hmem]
    _ = words := (h.eq_append hnodup).symm

end ClassList

namespace Drawing

variable {r : FoldRules} {w : Wiring}

/-! ### What is unfolded -/

/-- Whether everything that a click on a cluster writes is unfolded: members and frames of this
cluster and of those below it are in sight, and all their placeholder edges are hidden. -/
structure UnfoldedAt (d : Drawing) (r : FoldRules) (w : Wiring) (clicked : String) : Prop where
  members : ∀ c ∈ w.clusters d r, c = clicked ∨ r.isBelow c clicked = true →
    ∀ e ∈ d.clusterMembers r c, d.hasClass e r.hiddenClass = false
  frame : ∀ c ∈ w.clusters d r, c = clicked ∨ r.isBelow c clicked = true →
    ∀ e ∈ d.clusterFrame? r c, d.hasClass e r.hiddenClass = false
  placeholders : ∀ c ∈ w.clusters d r, c = clicked ∨ r.isBelow c clicked = true →
    ∀ e ∈ d.clusterMembers r (r.placeholderFor c), d.hasClass e r.hiddenClass = true

instance (d : Drawing) (r : FoldRules) (w : Wiring) (clicked : String) :
    Decidable (d.UnfoldedAt r w clicked) :=
  decidable_of_iff (_ ∧ _ ∧ _) ⟨fun h => ⟨h.1, h.2.1, h.2.2⟩, fun h => ⟨h.1, h.2, h.3⟩⟩

/-- What is unfolded is written as it is when it is unfolded again. -/
theorem UnfoldedAt.eq_of_writtenFlag {d : Drawing} {clicked c : String}
    (hd : d.UnfoldedAt r w clicked) (hc : d.Governs r w clicked c) {trigger : Option NodeId}
    {e : NodeId} {flag : Bool} (h : d.writtenFlag r c trigger true e = some flag) :
    flag = d.hasClass e r.hiddenClass := by
  rw [writtenFlag] at h
  split at h
  · rename_i hplaceholder
    rw [hd.placeholders c hc.1 hc.2 e hplaceholder, ← Option.some_inj.mp h, Bool.or_true]
  · split at h
    · rename_i hshown
      have hsight : d.hasClass e r.hiddenClass = false :=
        hshown.elim (fun hm => hd.members c hc.1 hc.2 e hm.1) (hd.frame c hc.1 hc.2 e)
      rw [hsight, ← Option.some_inj.mp h, Bool.not_true]
    · exact absurd h (by simp)

/-- Whether a call writes a node does not depend on its direction. -/
theorem writtenFlag_eq_none_of_shown {d : Drawing} {c : String} {trigger : Option NodeId}
    {e : NodeId} (h : d.writtenFlag r c trigger true e = none) (visible : Bool) :
    d.writtenFlag r c trigger visible e = none := by
  unfold writtenFlag at h ⊢
  split at h
  · exact absurd h (by simp)
  · rename_i hplaceholder
    split at h
    · exact absurd h (by simp)
    · rename_i hother
      rw [if_neg hplaceholder, if_neg hother]

/-! ### The writes of two clicks -/

theorem map_id_visibilityWrites (d : Drawing) (r : FoldRules) (cluster : String)
    (trigger : Option NodeId) (visible : Bool) :
    (d.visibilityWrites r cluster trigger visible).map (·.id) =
      (d.clusterFrame? r cluster).toList ++ d.clusterMembers r cluster ++
        d.clusterMembers r (r.placeholderFor cluster) := by
  simp [visibilityWrites, Function.comp_def]

/-- A click that folds and one that unfolds write the same elements. -/
theorem map_id_clickWrites (d : Drawing) (r : FoldRules) (w : Wiring) (cluster : String)
    (container : NodeId) (visible visible' : Bool) :
    (d.clickWrites r w cluster container visible).map (·.id) =
      (d.clickWrites r w cluster container visible').map (·.id) := by
  simp only [clickWrites, List.map_append, List.map_flatMap, map_id_visibilityWrites]

theorem word_of_mem_clickWrites {d : Drawing} {cluster : String} {container : NodeId}
    {visible : Bool} {x : ClassWrite} (hx : x ∈ d.clickWrites r w cluster container visible) :
    x.word = r.hiddenClass ∨ x.id = container ∧ x.word = r.collapsedClass := by
  rcases List.mem_append.mp hx with hx | hx
  · obtain ⟨sub, -, hx⟩ := List.mem_flatMap.mp hx
    exact (word_of_mem_visibilityWrites hx).imp_right fun h => absurd h.1 (by simp)
  · exact (word_of_mem_visibilityWrites hx).imp_right fun h =>
      ⟨(Option.some_inj.mp h.1).symm, h.2⟩

/-- The writes of two clicks, the first of which folds. -/
def roundWrites (d : Drawing) (r : FoldRules) (w : Wiring) (cluster : String)
    (container : NodeId) : List ClassWrite :=
  d.clickWrites r w cluster container false ++ d.clickWrites r w cluster container true

theorem word_of_mem_roundWrites {d : Drawing} {cluster : String} {container : NodeId}
    {x : ClassWrite} (hx : x ∈ d.roundWrites r w cluster container) :
    x.word = r.hiddenClass ∨ x.id = container ∧ x.word = r.collapsedClass :=
  (List.mem_append.mp hx).elim word_of_mem_clickWrites word_of_mem_clickWrites

theorem exists_of_mem_roundWrites {d : Drawing} {cluster : String} {container : NodeId}
    {x : ClassWrite} (hx : x ∈ d.roundWrites r w cluster container) :
    ∃ y ∈ d.clickWrites r w cluster container false, y.id = x.id := by
  rcases List.mem_append.mp hx with hx | hx
  · exact ⟨x, hx, rfl⟩
  · have hid := List.mem_map_of_mem (f := (·.id)) hx
    rw [map_id_clickWrites d r w cluster container true false] at hid
    exact List.mem_map.mp hid

theorem isWord_of_mem_roundWrites (hr : r.Separate) {d : Drawing} {cluster : String}
    {container : NodeId} {x : ClassWrite} (hx : x ∈ d.roundWrites r w cluster container) :
    IsWord x.word := by
  rcases word_of_mem_roundWrites hx with hword | ⟨-, hword⟩
  · exact hword ▸ hr.hidden
  · exact hword ▸ hr.collapsed

/-- Whether all class lists that a click writes are in normal form, with the word for what is
hidden at the end of those that hold it. -/
def NeatAt (d : Drawing) (r : FoldRules) (w : Wiring) (cluster : String) (container : NodeId) :
    Prop :=
  ∀ x ∈ d.clickWrites r w cluster container false, ∃ value ∈ d.attribute? x.id "class",
    ClassList.IsNormal value ∧ ClassList.EndsIn (ClassList.distinct value) r.hiddenClass

instance (d : Drawing) (r : FoldRules) (w : Wiring) (cluster : String) (container : NodeId) :
    Decidable (d.NeatAt r w cluster container) :=
  inferInstanceAs (Decidable (∀ x ∈ d.clickWrites r w cluster container false, ∃ value ∈ _, _))

theorem mem_classWords_iff {d : Drawing} {e : NodeId} {el : Element} (h : d.element? e = some el)
    (word : String) : word ∈ el.classWords ↔ d.hasClass e word = true := by
  rw [hasClass_eq_decide, attribute?, h, Option.bind_some, Element.classWords]
  rcases el.attribute? "class" with _ | value
  · simp [show ClassList.distinct "" = [] from rfl]
  · simp [ClassList.mem_distinct]

/-! ### Two clicks -/

section Twice

variable (hr : r.Separate) {d : Drawing} (hd : d.Wired w) {link container : NodeId}
  {cluster : String} (h : d.target? r w link = some (cluster, container))
  (hopen : d.hasClass container r.collapsedClass = false)
include hr hd h hopen

/-- The second click finds the container marked. -/
theorem collapsed_click_of_open :
    (d.click r w link).1.hasClass container r.collapsedClass = true := by
  rw [collapsed_click hr hd h, if_pos rfl, hopen, Bool.not_false]

theorem click_click_eq_writeAll : ((d.click r w link).1.click r w link).1 =
    d.writeAll (d.roundWrites r w cluster container) := by
  have hstep := refolded_click hr d w link
  rw [click_fst_eq_writeAll hr ((target?_eq hr hstep w link).trans h),
    collapsed_click_of_open hr hd h hopen, clickWrites_eq hstep hr, click_fst_eq_writeAll hr h,
    hopen, roundWrites, writeAll_append]

variable (hu : d.UnfoldedAt r w cluster)
include hu

/-- The flag `hidden` is the same after two clicks as before. -/
theorem hidden_click_click (e : NodeId) :
    ((d.click r w link).1.click r w link).1.hasClass e r.hiddenClass =
      d.hasClass e r.hiddenClass := by
  have hstep := refolded_click hr d w link
  have hclicked := clicked_mem_clusters h
  rw [hidden_click hr (hd.refold hstep) ((target?_eq hr hstep w link).trans h),
    collapsed_click_of_open hr hd h hopen, cascaded_eq hstep hr, hidden_click hr hd h, hopen]
  simp only [hstep.writtenFlag_eq hr]
  -- The last call that writes the node decides; otherwise the first click left it alone too.
  rcases hown : d.writtenFlag r cluster (some container) true e with _ | flag
  · rw [writtenFlag_eq_none_of_shown hown false, Option.getD_none, Option.getD_none]
    rcases hinner : (d.cascaded r w.headers cluster).reverse.findSome? fun sub =>
        d.writtenFlag r sub none true e with _ | flag
    · have hnone := List.findSome?_eq_none_iff.mp hinner
      rw [List.findSome?_eq_none_iff.mpr fun sub hsub =>
        writtenFlag_eq_none_of_shown (hnone sub hsub) false]
      rfl
    · obtain ⟨sub, hsub, hflag⟩ := List.exists_of_findSome?_eq_some hinner
      obtain ⟨hcluster, hbelow⟩ := mem_cascaded.mp (List.mem_reverse.mp hsub)
      exact hu.eq_of_writtenFlag ⟨hcluster, .inr hbelow⟩ hflag
  · exact hu.eq_of_writtenFlag ⟨hclicked, .inl rfl⟩ hown

/-- Two clicks restore the words of every class list. -/
theorem hasClass_click_click (e : NodeId) (word : String) :
    ((d.click r w link).1.click r w link).1.hasClass e word = d.hasClass e word := by
  have hstep := refolded_click hr d w link
  have hagain := (target?_eq hr hstep w link).trans h
  by_cases hhidden : word = r.hiddenClass
  · rw [hhidden, hidden_click_click hr hd h hopen hu]
  · by_cases hcollapsed : word = r.collapsedClass
    · rw [hcollapsed, collapsed_click hr (hd.refold hstep) hagain, collapsed_click hr hd h]
      by_cases he : container = e
      · rw [if_pos he, if_pos he, Bool.not_not]
      · rw [if_neg he, if_neg he]
    · exact (hstep.trans (refolded_click hr _ w link)).words e word hhidden hcollapsed

/-- An element has the same words after two clicks, in the same order. -/
theorem switchWords_roundWrites {e : NodeId} {el : Element} (hel : d.element? e = some el)
    (hends : ClassList.EndsIn el.classWords r.hiddenClass) :
    ClassList.switchWords el.classWords
      ((d.roundWrites r w cluster container).filter (·.id = e)) = el.classWords := by
  generalize hwrites : (d.roundWrites r w cluster container).filter (·.id = e) = writes
  have hmem : ∀ x ∈ writes, x ∈ d.roundWrites r w cluster container ∧ x.id = e := by
    intro x hx
    rw [← hwrites, List.mem_filter] at hx
    exact hx.imp_right of_decide_eq_true
  have hafter : (d.writeAll (d.roundWrites r w cluster container)).element? e =
      some (el.switchAll writes) := by
    rw [element?_writeAll, hel, hwrites]
    rfl
  -- The words are the same as before; what is left to show is that they stand in their places.
  have hsame : ∀ word, word ∈ ClassList.switchWords el.classWords writes ↔
      word ∈ el.classWords := by
    intro word
    rw [← Element.classWords_switchAll fun x hx => isWord_of_mem_roundWrites hr (hmem x hx).1,
      mem_classWords_iff hafter, mem_classWords_iff hel, ← click_click_eq_writeAll hr hd h hopen,
      hasClass_click_click hr hd h hopen hu]
  by_cases he : e = container
  · -- The container is neither hidden nor marked, before and after.
    subst he
    have hforeign : ∀ u ∈ el.classWords, r.isForeign u = true := by
      intro u hu'
      rw [mem_classWords_iff hel] at hu'
      have hhidden := hu.members cluster (clicked_mem_clusters h) (.inl rfl) e (hd.target_mem h)
      have hne : ∀ word, d.hasClass e word = false → u ≠ word := by
        rintro word hword rfl
        exact Bool.noConfusion (hu'.symm.trans hword)
      simp [FoldRules.isForeign, hne _ hhidden, hne _ hopen]
    refine ClassList.switchWords_eq_self_of_absent (fun x hx => ?_) hforeign
      fun u hu' => hforeign u ((hsame u).mp hu')
    rcases word_of_mem_roundWrites (hmem x hx).1 with hword | ⟨-, hword⟩
    · simp [FoldRules.isForeign, hword]
    · simp [FoldRules.isForeign, hword]
  · refine hends.switchWords_eq_self (nodup_eraseDups _) (fun x hx => ?_) (hsame r.hiddenClass)
    obtain ⟨hround, hid⟩ := hmem x hx
    exact (word_of_mem_roundWrites hround).resolve_right fun hword => he (hid.symm.trans hword.1)

/-- Two clicks restore the whole drawing, if all class lists that they write are neat. -/
theorem click_click_eq_self (hneat : d.NeatAt r w cluster container) :
    ((d.click r w link).1.click r w link).1 = d := by
  rw [click_click_eq_writeAll hr hd h hopen]
  refine (writeAll_congr fun e el hel => ?_ : _ = d.writeAll [])
  by_cases hnil : (d.roundWrites r w cluster container).filter (·.id = e) = []
  · rw [hnil]
    rfl
  · -- The class list of an element that is written is known to be neat.
    obtain ⟨x, hx⟩ := List.exists_mem_of_ne_nil _ hnil
    obtain ⟨hround, hid⟩ := List.mem_filter.mp hx
    obtain ⟨y, hy, hyid⟩ := exists_of_mem_roundWrites hround
    obtain ⟨value, hvalue, hnormal, hends⟩ := hneat y hy
    rw [hyid, of_decide_eq_true hid, attribute?, hel, Option.bind_some, Option.mem_def] at hvalue
    have hwords : el.classWords = ClassList.distinct value := by
      rw [Element.classWords, hvalue, Option.getD_some]
    have hkept := switchWords_roundWrites hr hd h hopen hu hel (hwords ▸ hends)
    have hnot : ¬el.Ignores ((d.roundWrites r w cluster container).filter (·.id = e)) :=
      fun hignores => hignores.elim hnil fun hnone =>
        Option.some_ne_none _ (hvalue.symm.trans hnone.1)
    rw [Element.switchAll_of_not_ignores (fun z hz => ?_) hnot, hkept, hwords, hnormal]
    · exact Element.setAttribute_eq_self hvalue
    · exact isWord_of_mem_roundWrites hr (List.mem_filter.mp hz).1

end Twice

/-! ### Drawings that were read -/

/-- Folding and unfolding is the identity.  In a drawing that was read and wired, after any run of
clicks, take a header whose container is not marked, and let everything that a click on it writes
be unfolded.  Two clicks on it fold and unfold, and restore the words of every class list, however
the clusters overlap.  If the class lists they write are in normal form, with the word for what is
hidden at their ends, the drawing is the same as before, down to its text. -/
theorem click_undone {text : String} {source : Drawing} (hsource : ofString text = .ok source)
    (hr : r.Separate) (links : List NodeId) {link container : NodeId} {cluster : String}
    (h : (source.wire r).1.target? r (source.wire r).2 link = some (cluster, container)) :
    let w := (source.wire r).2
    let now := (source.wire r).1.afterClicks r w links
    let folded := (now.click r w link).1
    let unfolded := (folded.click r w link).1
    now.UnfoldedAt r w cluster → now.hasClass container r.collapsedClass = false →
    (now.click r w link).2.expanded = some false ∧
    (folded.click r w link).2.expanded = some true ∧
    (∀ e word, unfolded.hasClass e word = now.hasClass e word) ∧
    (now.NeatAt r w cluster container → unfolded = now) := by
  intro w now folded unfolded hu hopen
  have hrun : Refolded r (source.wire r).1 now := refolded_afterClicks hr (source.wire r).1 w links
  have hnow : now.Wired w := (wired_wire (parentsAreElements_ofString hsource) r).refold hrun
  have htarget : now.target? r w link = some (cluster, container) :=
    (target?_eq hr hrun w link).trans h
  have hagain : folded.target? r w link = some (cluster, container) :=
    (target?_eq hr (refolded_click hr now w link) w link).trans htarget
  refine ⟨(expanded_click htarget).trans (congrArg some hopen),
    (expanded_click hagain).trans (congrArg some ?_),
    hasClass_click_click hr hnow htarget hopen hu,
    click_click_eq_self hr hnow htarget hopen hu⟩
  exact collapsed_click_of_open hr hnow htarget hopen

/-- A drawing whose nodes and edges have class words of their own. -/
def classedPair : Drawing where
  nodes := #[⟨.element ⟨"svg", [], []⟩, none, [1, 4, 7, 10]⟩,
    ⟨.element ⟨"g", [], [("class", "cluster")]⟩, some 0, [2]⟩,
    ⟨.element ⟨"title", [], []⟩, some 1, [3]⟩, ⟨.text "cluster_m", some 2, []⟩,
    ⟨.element ⟨"g", [], [("class", "node")]⟩, some 0, [5]⟩, ⟨.element ⟨"g", [], []⟩, some 4, [6]⟩,
    ⟨.element ⟨"a", [], [("href", "m"), ("target", "t")]⟩, some 5, []⟩,
    ⟨.element ⟨"g", [], [("class", "node")]⟩, some 0, [8]⟩, ⟨.element ⟨"g", [], []⟩, some 7, [9]⟩,
    ⟨.element ⟨"a", [], [("href", "m.n"), ("target", "t")]⟩, some 8, []⟩,
    ⟨.element ⟨"g", [], [("class", "edge")]⟩, some 0, [11]⟩,
    ⟨.element ⟨"g", [], []⟩, some 10, [12]⟩,
    ⟨.element ⟨"a", [], [("href", "not_m")]⟩, some 11, []⟩]
  root := 0
  prologue := []
  epilogue := []

/-- The drawing as text. -/
def classedPairText : String :=
  "<svg><g class=\"cluster\"><title>cluster_m</title></g>" ++
    "<g class=\"node\"><g><a href=\"m\" target=\"t\"/></g></g>" ++
    "<g class=\"node\"><g><a href=\"m.n\" target=\"t\"/></g></g>" ++
    "<g class=\"edge\"><g><a href=\"not_m\"/></g></g></svg>"

theorem ofString_classedPair : ofString classedPairText = .ok classedPair :=
  eq_ok_of_toOption (by decide +kernel)

/-- Folded, `m` hides its frame and `m.n`, and shows its placeholder edge; unfolded, the drawing is
what it was. -/
theorem click_undone_classedPair :
    let w := (classedPair.wire {}).2
    let start := (classedPair.wire {}).1
    let folded := (start.click {} w 6).1
    start.UnfoldedAt {} w "m" ∧ start.NeatAt {} w "m" 4 ∧
      [1, 4, 7, 10].map (start.attribute? · "class") =
        [some "cluster", some "node", some "node", some "edge hide"] ∧
      [1, 4, 7, 10].map (folded.attribute? · "class") =
        [some "cluster hide", some "node collapsed", some "node hide", some "edge"] ∧
      (folded.click {} w 6).1 = start := by
  intro w start folded
  have htarget : start.target? {} w 6 = some ("m", 4) := by decide +kernel
  have hunfolded : start.UnfoldedAt {} w "m" := by decide +kernel
  have hopen : start.hasClass 4 "collapsed" = false := by decide +kernel
  have hneat : start.NeatAt {} w "m" 4 := by decide +kernel
  have hundone := click_undone ofString_classedPair FoldRules.separate_default [] htarget
    hunfolded hopen
  exact ⟨hunfolded, hneat, by decide +kernel, by decide +kernel, hundone.2.2.2 hneat⟩

end Drawing
end GraphFolding
