/-
Snapshots: clicks by the names of clusters, seen or unseen.

A name stands for the first header of its cluster, which an earlier click may have hidden.
A cluster clicked then shows its placeholder edges while all of it stays hidden: it is
orphaned.

* `Snapshot.container?`, `Snapshot.Reaches` — the container that a name stands for, and the
  clusters that a click on it writes;
* `Drawing.Orphaned` — a placeholder edge of a cluster is in sight, and no header is;
* `orphaned_clickAll_iff_exists`, `orphaned_snapshot_iff` — when a list of clicks leaves a
  cluster orphaned: if the last click that reaches it is one on its own hidden header;
* `not_forall_header_in_sight` — so a hidden cluster may well show its placeholder edges.
-/
import GraphFolding.Proofs.StyleInsertion
import GraphFolding.Proofs.Territory
namespace GraphFolding

namespace Drawing

/-- A placeholder edge of a cluster is in sight, and no container of a header is. -/
def Orphaned (d : Drawing) (r : FoldRules) (w : Wiring) (cluster : String) : Prop :=
  (∃ e ∈ d.clusterMembers r (r.placeholderFor cluster), d.hasClass e r.hiddenClass = false) ∧
    ∀ link t, d.target? r w link = some (cluster, t) → d.hasClass t r.hiddenClass = true

end Drawing

namespace Snapshot

open Drawing

variable {r : FoldRules}

/-- The container that a click by the name of a cluster acts on. -/
def container? (s : Snapshot) (r : FoldRules) (name : String) : Option NodeId :=
  (s.wiring.headerFor? s.drawing r name).bind (s.drawing.ancestor? · r.containerDepth)

/-- Whether a click by a name shows or hides a cluster. -/
def Reaches (s : Snapshot) (r : FoldRules) (name cluster : String) : Prop :=
  (s.container? r name).isSome ∧ (cluster = name ∨ r.isBelow cluster name = true)

instance (s : Snapshot) (r : FoldRules) (name cluster : String) :
    Decidable (s.Reaches r name cluster) :=
  inferInstanceAs (Decidable (_ ∧ _))

theorem clickNamed_of_container?_eq_none {s : Snapshot} {name : String}
    (h : s.container? r name = none) : (s.clickNamed r name).drawing = s.drawing := by
  rw [container?] at h
  rw [clickNamed]
  rcases hlink : s.wiring.headerFor? s.drawing r name with _ | link
  · rfl
  · rw [hlink, Option.bind_some] at h
    have htarget : s.drawing.target? r s.wiring link = none := by
      rw [target?, h]
      simp
    simp only [click_of_target?_eq_none htarget]

/-- A click by a name is a click on a header with this name. -/
theorem clickNamed_of_container?_eq_some {s : Snapshot} {name : String} {t : NodeId}
    (h : s.container? r name = some t) : ∃ link,
      s.drawing.target? r s.wiring link = some (name, t) ∧
      (s.clickNamed r name).drawing = (s.drawing.click r s.wiring link).1 := by
  obtain ⟨link, hlink, ht⟩ := Option.bind_eq_some_iff.mp h
  refine ⟨link, target?_eq_some.mpr ⟨?_, ?_, ht⟩, ?_⟩
  · exact List.mem_of_find?_eq_some hlink
  · exact of_decide_eq_true (List.find?_eq_some_iff_append.mp hlink).1
  · rw [clickNamed, hlink]

theorem clickNamed_wiring (s : Snapshot) (r : FoldRules) (name : String) :
    (s.clickNamed r name).wiring = s.wiring := by
  rw [clickNamed]
  rcases s.wiring.headerFor? s.drawing r name with _ | link <;> rfl

theorem refolded_clickNamed (hr : r.Separate) (s : Snapshot) (name : String) :
    Refolded r s.drawing (s.clickNamed r name).drawing := by
  rcases h : s.container? r name with _ | t
  · rw [clickNamed_of_container?_eq_none h]
    exact .refl r s.drawing
  · obtain ⟨link, -, hclick⟩ := clickNamed_of_container?_eq_some h
    rw [hclick]
    exact refolded_click hr s.drawing s.wiring link

theorem clickAll_append (s : Snapshot) (r : FoldRules) (before after : List String) :
    s.clickAll r (before ++ after) = (s.clickAll r before).clickAll r after :=
  List.foldl_append

theorem clickAll_cons (s : Snapshot) (r : FoldRules) (name : String) (names : List String) :
    s.clickAll r (name :: names) = (s.clickNamed r name).clickAll r names :=
  List.foldl_cons ..

/-- A snapshot that can be clicked: its drawing fits its wiring, and the clusters of headers
share no nodes. -/
structure Sound (s : Snapshot) (r : FoldRules) : Prop where
  wired : s.drawing.Wired s.wiring
  orderly : s.drawing.Orderly r s.wiring

/-- A snapshot clicked further: the same wiring, and a drawing folded differently. -/
structure Resumed (r : FoldRules) (s s' : Snapshot) : Prop where
  wiring : s'.wiring = s.wiring
  drawing : Refolded r s.drawing s'.drawing

theorem resumed_clickAll (hr : r.Separate) (names : List String) : ∀ (s : Snapshot),
    Resumed r s (s.clickAll r names) := by
  induction names with
  | nil => exact fun s => ⟨rfl, .refl r s.drawing⟩
  | cons name names ih =>
    intro s
    have hrest := ih (s.clickNamed r name)
    rw [clickAll_cons]
    exact ⟨hrest.wiring.trans (clickNamed_wiring s r name),
      (refolded_clickNamed hr s name).trans hrest.drawing⟩

namespace Resumed

variable {s s' : Snapshot} (h : Resumed r s s') (hr : r.Separate)
include h hr

theorem sound (hs : s.Sound r) : s'.Sound r where
  wired := h.wiring ▸ hs.wired.refold h.drawing
  orderly := h.wiring ▸ hs.orderly.refold hr h.drawing

theorem clusters_eq : s'.wiring.clusters s'.drawing r = s.wiring.clusters s.drawing r := by
  rw [h.wiring, Drawing.clusters_eq hr h.drawing]

theorem container?_eq (name : String) : s'.container? r name = s.container? r name := by
  have hancestor : (s'.drawing.ancestor? · r.containerDepth) =
      (s.drawing.ancestor? · r.containerDepth) :=
    funext fun link => ancestor?_eq h.drawing.bare link _
  rw [container?, Wiring.headerFor?, hancestor, h.wiring]
  simp only [h.drawing.cluster_eq hr]
  rfl

theorem reaches_iff (name cluster : String) :
    s'.Reaches r name cluster ↔ s.Reaches r name cluster := by
  rw [Reaches, h.container?_eq hr, Reaches]

end Resumed

/-! ### What a click by a name writes -/

theorem hidden_clickNamed_of_not_reaches (hr : r.Separate) {s : Snapshot} (hs : s.Sound r)
    {name c : String} (hnot : ¬s.Reaches r name c) (hc : c ∈ s.wiring.clusters s.drawing r)
    {e : NodeId} (he : s.drawing.Touches r c e) :
    (s.clickNamed r name).drawing.hasClass e r.hiddenClass =
      s.drawing.hasClass e r.hiddenClass := by
  rcases h : s.container? r name with _ | t
  · rw [clickNamed_of_container?_eq_none h]
  · obtain ⟨link, htarget, hclick⟩ := clickNamed_of_container?_eq_some h
    have hne : ¬(c = name ∨ r.isBelow c name = true) := fun hcase =>
      hnot ⟨by simp [h], hcase⟩
    rw [not_or] at hne
    rw [hclick, hidden_click_of_touches hr hs.wired hs.orderly htarget hc he, if_neg hne.1,
      if_neg hne.2, Option.getD_none]

theorem hidden_clickAll_of_not_reaches (hr : r.Separate) {names : List String} :
    ∀ {s : Snapshot}, s.Sound r → ∀ {c : String}, (∀ name ∈ names, ¬s.Reaches r name c) →
    c ∈ s.wiring.clusters s.drawing r → ∀ {e : NodeId}, s.drawing.Touches r c e →
    (s.clickAll r names).drawing.hasClass e r.hiddenClass =
      s.drawing.hasClass e r.hiddenClass := by
  induction names with
  | nil => exact fun _ _ _ _ _ _ => rfl
  | cons name names ih =>
    intro s hs c hnot hc e he
    have hstep : Resumed r s (s.clickNamed r name) :=
      ⟨clickNamed_wiring s r name, refolded_clickNamed hr s name⟩
    have hrest : ∀ n ∈ names, ¬(s.clickNamed r name).Reaches r n c := by
      intro n hn
      rw [hstep.reaches_iff hr]
      exact hnot n (List.mem_cons_of_mem name hn)
    rw [clickAll_cons, ih (hstep.sound hr hs) hrest (hstep.clusters_eq hr ▸ hc)
      ((Touches.refold hr hstep.drawing).mpr he)]
    exact hidden_clickNamed_of_not_reaches hr hs (hnot name List.mem_cons_self) hc he

/-- A click on a cluster further out hides the placeholder edges. -/
theorem hidden_placeholder_of_below (hr : r.Separate) {s : Snapshot} (hs : s.Sound r)
    {name c : String} {t : NodeId} (h : s.container? r name = some t)
    (hc : c ∈ s.wiring.clusters s.drawing r) (hne : c ≠ name) (hbelow : r.isBelow c name = true)
    {e : NodeId} (he : e ∈ s.drawing.clusterMembers r (r.placeholderFor c)) :
    (s.clickNamed r name).drawing.hasClass e r.hiddenClass = true := by
  obtain ⟨link, htarget, hclick⟩ := clickNamed_of_container?_eq_some h
  rw [hclick, hidden_click_of_touches hr hs.wired hs.orderly htarget hc (.inr (.inl he)),
    if_neg hne, if_pos hbelow, writtenFlag_placeholder he]
  rfl

section Own

variable {s : Snapshot} {c : String} {t e : NodeId}

/-- A click on the cluster itself shows its placeholder edges, unless its header is marked. -/
theorem hidden_placeholder_of_own (hr : r.Separate) (hs : s.Sound r)
    (h : s.container? r c = some t) (hc : c ∈ s.wiring.clusters s.drawing r)
    (he : e ∈ s.drawing.clusterMembers r (r.placeholderFor c)) :
    (s.clickNamed r c).drawing.hasClass e r.hiddenClass =
      s.drawing.hasClass t r.collapsedClass := by
  obtain ⟨link, htarget, hclick⟩ := clickNamed_of_container?_eq_some h
  rw [hclick, hidden_click_of_touches hr hs.wired hs.orderly htarget hc (.inr (.inl he)),
    if_pos rfl, writtenFlag_placeholder he]
  rfl

/-- It shows or hides the other members the other way round. -/
theorem hidden_member_of_own (hr : r.Separate) (hs : s.Sound r)
    (h : s.container? r c = some t) (hc : c ∈ s.wiring.clusters s.drawing r)
    (he : e ∈ s.drawing.clusterMembers r c) (hne : t ≠ e) :
    (s.clickNamed r c).drawing.hasClass e r.hiddenClass =
      !s.drawing.hasClass t r.collapsedClass := by
  obtain ⟨link, htarget, hclick⟩ := clickNamed_of_container?_eq_some h
  rw [hclick, hidden_click_of_touches hr hs.wired hs.orderly htarget hc (.inl he), if_pos rfl,
    hs.orderly.writtenFlag_member hc he (by simpa using hne)]
  rfl

/-- And it leaves the container of its header where it is, in sight or not. -/
theorem hidden_trigger_of_own (hr : r.Separate) (hs : s.Sound r)
    (h : s.container? r c = some t) (hc : c ∈ s.wiring.clusters s.drawing r) :
    (s.clickNamed r c).drawing.hasClass t r.hiddenClass =
      s.drawing.hasClass t r.hiddenClass := by
  obtain ⟨link, htarget, hclick⟩ := clickNamed_of_container?_eq_some h
  have hmember := hs.wired.target_mem htarget
  rw [hclick, hidden_click_of_touches hr hs.wired hs.orderly htarget hc (.inl hmember),
    if_pos rfl, hs.orderly.writtenFlag_trigger hc hmember, Option.getD_none]

end Own

/-! ### Orphaned clusters -/

/-- Every list has a last entry of a kind, or none at all. -/
theorem forall_not_or_exists_last {α : Type} (p : α → Prop) (l : List α) : (∀ x ∈ l, ¬p x) ∨
    ∃ before x after, l = before ++ x :: after ∧ p x ∧ ∀ y ∈ after, ¬p y := by
  induction l with
  | nil => exact .inl (by simp)
  | cons a l ih =>
    rcases ih with hnone | ⟨before, x, after, rfl, hx, hafter⟩
    · by_cases ha : p a
      · exact .inr ⟨[], a, l, rfl, ha, hnone⟩
      · refine .inl fun x hx => ?_
        rcases List.mem_cons.mp hx with rfl | hx
        · exact ha
        · exact hnone x hx
    · exact .inr ⟨a :: before, x, after, rfl, hx, hafter⟩

/-- A click on a hidden and unmarked header leaves its cluster orphaned, and so does every
click that does not reach the cluster. -/
theorem orphaned_clickNamed (hr : r.Separate) {s : Snapshot} (hs : s.Sound r) {c : String}
    (hc : c ∈ s.wiring.clusters s.drawing r) {t : NodeId} (h : s.container? r c = some t)
    (hhidden : s.drawing.hasClass t r.hiddenClass = true)
    (hmark : s.drawing.hasClass t r.collapsedClass = false) {e : NodeId}
    (he : e ∈ s.drawing.clusterMembers r (r.placeholderFor c)) :
    (s.clickNamed r c).drawing.Orphaned r s.wiring c := by
  have hstep := refolded_clickNamed hr s c
  refine ⟨⟨e, ?_, ?_⟩, fun link t' htarget => ?_⟩
  · rw [hstep.clusterMembers_eq hr]
    exact he
  · rw [hidden_placeholder_of_own hr hs h hc he, hmark]
  · rw [target?_eq hr hstep] at htarget
    by_cases htt : t = t'
    · rw [← htt, hidden_trigger_of_own hr hs h hc, hhidden]
    · rw [hidden_member_of_own hr hs h hc (hs.wired.target_mem htarget) htt, hmark]
      rfl

theorem orphaned_clickAll_iff_of_not_reaches (hr : r.Separate) {s : Snapshot} (hs : s.Sound r)
    {c : String} (hc : c ∈ s.wiring.clusters s.drawing r) {names : List String}
    (hnot : ∀ name ∈ names, ¬s.Reaches r name c) :
    (s.clickAll r names).drawing.Orphaned r s.wiring c ↔ s.drawing.Orphaned r s.wiring c := by
  have hrun := (resumed_clickAll hr names s).drawing
  have hkeep := fun e => hidden_clickAll_of_not_reaches hr hs hnot hc (e := e)
  simp only [Orphaned, hrun.clusterMembers_eq hr, target?_eq hr hrun]
  constructor
  · rintro ⟨⟨e, he, hshown⟩, hheaders⟩
    refine ⟨⟨e, he, hkeep e (.inr (.inl he)) ▸ hshown⟩, fun link t htarget => ?_⟩
    rw [← hkeep t (.inl (hs.wired.target_mem htarget))]
    exact hheaders link t htarget
  · rintro ⟨⟨e, he, hshown⟩, hheaders⟩
    refine ⟨⟨e, he, (hkeep e (.inr (.inl he))).trans hshown⟩, fun link t htarget => ?_⟩
    rw [hkeep t (.inl (hs.wired.target_mem htarget))]
    exact hheaders link t htarget

/-- Among the clicks that reach a cluster, only one on its own hidden and unmarked header
leaves it orphaned. -/
theorem eq_of_orphaned_clickNamed (hr : r.Separate) {s : Snapshot} (hs : s.Sound r)
    {name c : String} (hc : c ∈ s.wiring.clusters s.drawing r) (hreach : s.Reaches r name c)
    (horphaned : (s.clickNamed r name).drawing.Orphaned r s.wiring c) :
    name = c ∧ ∃ t, s.container? r c = some t ∧ s.drawing.hasClass t r.hiddenClass = true ∧
      s.drawing.hasClass t r.collapsedClass = false := by
  have hstep := refolded_clickNamed hr s name
  obtain ⟨⟨e, he, hshown⟩, hheaders⟩ := horphaned
  rw [hstep.clusterMembers_eq hr] at he
  obtain ⟨hsome, hcase⟩ := hreach
  obtain ⟨t, ht⟩ := Option.isSome_iff_exists.mp hsome
  have hname : c = name := by
    refine Decidable.byContradiction fun hne => ?_
    rw [hidden_placeholder_of_below hr hs ht hc hne (hcase.resolve_left hne) he] at hshown
    exact Bool.noConfusion hshown
  subst hname
  obtain ⟨link, htarget, -⟩ := clickNamed_of_container?_eq_some ht
  refine ⟨rfl, t, ht, ?_, ?_⟩
  · rw [← hidden_trigger_of_own hr hs ht hc]
    exact hheaders link t ((target?_eq hr hstep s.wiring link).trans htarget)
  · rw [← hidden_placeholder_of_own hr hs ht hc he, hshown]

/-- When a list of clicks leaves a cluster orphaned: it was so before and no click reaches
it, or the last click that reaches it is one on its own header, hidden by an earlier one. -/
theorem orphaned_clickAll_iff_exists (hr : r.Separate) {s : Snapshot} (hs : s.Sound r)
    {c : String} (hc : c ∈ s.wiring.clusters s.drawing r) (names : List String) :
    (s.clickAll r names).drawing.Orphaned r s.wiring c ↔
      (s.drawing.Orphaned r s.wiring c ∧ ∀ name ∈ names, ¬s.Reaches r name c) ∨
      (s.drawing.clusterMembers r (r.placeholderFor c) ≠ [] ∧
        ∃ before after t, names = before ++ c :: after ∧ s.container? r c = some t ∧
          (s.clickAll r before).drawing.hasClass t r.hiddenClass = true ∧
          (s.clickAll r before).drawing.hasClass t r.collapsedClass = false ∧
          ∀ name ∈ after, ¬s.Reaches r name c) := by
  -- The last click of a run `before ++ name :: after` that matters is the one on `name`.
  have hlast : ∀ {before after : List String} {name : String},
      (∀ n ∈ after, ¬s.Reaches r n c) →
      ((s.clickAll r (before ++ name :: after)).drawing.Orphaned r s.wiring c ↔
        ((s.clickAll r before).clickNamed r name).drawing.Orphaned r s.wiring c) := by
    intro before after name hafter
    have hrun := resumed_clickAll hr (before ++ [name]) s
    have hnot : ∀ n ∈ after, ¬(s.clickAll r (before ++ [name])).Reaches r n c := by
      intro n hn
      rw [hrun.reaches_iff hr]
      exact hafter n hn
    have hkeep := orphaned_clickAll_iff_of_not_reaches hr (hrun.sound hr hs)
      (hrun.clusters_eq hr ▸ hc) hnot
    rw [hrun.wiring, ← clickAll_append, List.append_assoc, List.singleton_append] at hkeep
    rw [hkeep, clickAll_append]
    rfl
  constructor
  · intro horphaned
    rcases forall_not_or_exists_last (s.Reaches r · c) names with
      hnone | ⟨before, name, after, rfl, hreach, hafter⟩
    · exact .inl ⟨(orphaned_clickAll_iff_of_not_reaches hr hs hc hnone).mp horphaned, hnone⟩
    · -- The statement is moved to the moment of that click, and its result back.
      have hrun := resumed_clickAll hr before s
      have hmoment := (hlast hafter).mp horphaned
      rw [← hrun.wiring] at hmoment
      obtain ⟨rfl, t, ht, hhidden, hmark⟩ := eq_of_orphaned_clickNamed hr (hrun.sound hr hs)
        (hrun.clusters_eq hr ▸ hc) ((hrun.reaches_iff hr name c).mpr hreach) hmoment
      rw [hrun.container?_eq hr] at ht
      refine .inr ⟨?_, before, after, t, rfl, ht, hhidden, hmark, hafter⟩
      obtain ⟨⟨e, he, -⟩, -⟩ := horphaned
      rw [(resumed_clickAll hr _ s).drawing.clusterMembers_eq hr] at he
      exact List.ne_nil_of_mem he
  · rintro (⟨horphaned, hnone⟩ | ⟨hne, before, after, t, rfl, ht, hhidden, hmark, hafter⟩)
    · exact (orphaned_clickAll_iff_of_not_reaches hr hs hc hnone).mpr horphaned
    · have hrun := resumed_clickAll hr before s
      obtain ⟨e, he⟩ := List.exists_mem_of_ne_nil _ hne
      rw [hlast hafter, ← hrun.wiring]
      refine orphaned_clickNamed hr (hrun.sound hr hs) (hrun.clusters_eq hr ▸ hc)
        ((hrun.container?_eq hr c).trans ht) hhidden hmark (e := e) ?_
      rw [hrun.drawing.clusterMembers_eq hr]
      exact he

/-- A snapshot in which nothing is hidden but placeholder edges. -/
def OnlyPlaceholdersHidden (s : Snapshot) (r : FoldRules) : Prop :=
  ∀ e, s.drawing.hasClass e r.hiddenClass = true →
    ∃ c, e ∈ s.drawing.clusterMembers r (r.placeholderFor c)

/-- When a snapshot shows a placeholder edge of a cluster without a header of it.  Its list
of clicks has as the last one that reaches the cluster a click on the cluster itself, at a
moment when its first header is hidden and unmarked.  (Or the cluster cannot be clicked at
all, for want of a container, and a placeholder edge is in sight from the start.) -/
theorem orphaned_snapshot_iff {source : String} {settings : Settings} {s : Snapshot}
    (hstart : start source settings = .ok s) (hr : settings.fold.Separate)
    (ho : s.drawing.Orderly settings.fold s.wiring)
    (hhidden : s.OnlyPlaceholdersHidden settings.fold) {c : String}
    (hc : c ∈ s.wiring.clusters s.drawing settings.fold) (names : List String) :
    let r := settings.fold
    ∃ final, snapshot source settings names = .ok final ∧
      (final.drawing.Orphaned r final.wiring c ↔
        ((∃ e ∈ s.drawing.clusterMembers r (r.placeholderFor c),
            s.drawing.hasClass e r.hiddenClass = false) ∧
          (∀ link t, s.drawing.target? r s.wiring link ≠ some (c, t)) ∧
          ∀ name ∈ names, ¬s.Reaches r name c) ∨
        (s.drawing.clusterMembers r (r.placeholderFor c) ≠ [] ∧
          ∃ before after t, names = before ++ c :: after ∧ s.container? r c = some t ∧
            (s.clickAll r before).drawing.hasClass t r.hiddenClass = true ∧
            (s.clickAll r before).drawing.hasClass t r.collapsedClass = false ∧
            ∀ name ∈ after, ¬s.Reaches r name c)) := by
  intro r
  have hs : s.Sound r := ⟨wired_start hstart, ho⟩
  refine ⟨s.clickAll r names, by rw [snapshot, hstart]; rfl, ?_⟩
  rw [(resumed_clickAll hr names s).wiring, orphaned_clickAll_iff_exists hr hs hc names]
  refine or_congr ?_ Iff.rfl
  constructor
  · rintro ⟨⟨hshown, hheaders⟩, hnone⟩
    refine ⟨hshown, fun link t htarget => ?_, hnone⟩
    -- No member is hidden at the start, so no header has a container.
    obtain ⟨c', hplaceholder⟩ := hhidden t (hheaders link t htarget)
    exact ho.not_mem_of_placeholder hc hplaceholder (hs.wired.target_mem htarget)
  · rintro ⟨hshown, hheaders, hnone⟩
    exact ⟨⟨hshown, fun link t htarget => absurd htarget (hheaders link t)⟩, hnone⟩

/-! ### A hidden header clicked -/

/-- The snapshot of the pair of nested clusters before any click. -/
def nestedPairStart : Snapshot where
  drawing := (nestedPair.wire {}).1.injectStyle 0 (stylesheet {} {})
  wiring := (nestedPair.wire {}).2

theorem start_nestedPair : start nestedPairText {} = .ok nestedPairStart := by
  have hsvg : nestedPair.svgRoot? = some 0 := by decide +kernel
  rw [start, ofString_nestedPair]
  simp only [bind, Except.bind, prepare, hsvg]
  rfl

theorem orderly_nestedPairStart :
    nestedPairStart.drawing.Orderly {} nestedPairStart.wiring := by
  decide +kernel

theorem onlyPlaceholdersHidden_nestedPairStart : nestedPairStart.OnlyPlaceholdersHidden {} := by
  have hall : ∀ e < nestedPairStart.drawing.nodes.size,
      nestedPairStart.drawing.hasClass e "hide" = true →
      e ∈ nestedPairStart.drawing.clusterMembers {} "not_m.n" := by
    decide +kernel
  intro e he
  exact ⟨"m.n", hall e (lt_size_of_isElement (isElement_of_hasClass he)) he⟩

theorem orphaned_snapshot_nestedPair : ∃ final,
    snapshot nestedPairText {} ["m", "m.n"] = .ok final ∧
      final.drawing.Orphaned {} final.wiring "m.n" := by
  obtain ⟨final, hfinal, hiff⟩ := orphaned_snapshot_iff start_nestedPair
    FoldRules.separate_default orderly_nestedPairStart onlyPlaceholdersHidden_nestedPairStart
    (c := "m.n") (by decide +kernel) ["m", "m.n"]
  exact ⟨final, hfinal, hiff.mpr (.inr ⟨by decide +kernel, ["m"], [], 4, rfl, by decide +kernel,
    by decide +kernel, by decide +kernel, by simp⟩)⟩

/-- It is not so that wherever a placeholder edge of a cluster is in sight, a header of it is
too: the pair of nested clusters, clicked from the outside in. -/
theorem not_forall_header_in_sight : ¬∀ source s, start source {} = .ok s →
    s.drawing.Orderly {} s.wiring → s.OnlyPlaceholdersHidden {} →
    ∀ names final, snapshot source {} names = .ok final →
    ∀ c ∈ s.wiring.clusters s.drawing {},
      (∃ e ∈ final.drawing.clusterMembers {} (FoldRules.placeholderFor {} c),
        final.drawing.hasClass e "hide" = false) →
      ∃ link t, final.drawing.target? {} final.wiring link = some (c, t) ∧
        final.drawing.hasClass t "hide" = false := by
  intro h
  have hs : nestedPairStart.Sound {} := ⟨wired_start start_nestedPair, orderly_nestedPairStart⟩
  have hc : "m.n" ∈ nestedPairStart.wiring.clusters nestedPairStart.drawing {} := by
    decide +kernel
  have horphaned := (orphaned_clickAll_iff_exists FoldRules.separate_default hs hc
    ["m", "m.n"]).mpr (.inr ⟨by decide +kernel, ["m"], [], 4, rfl, by decide +kernel,
      by decide +kernel, by decide +kernel, by simp⟩)
  rw [← (resumed_clickAll FoldRules.separate_default ["m", "m.n"] nestedPairStart).wiring]
    at horphaned
  obtain ⟨link, t, htarget, hshown⟩ := h nestedPairText nestedPairStart start_nestedPair
    orderly_nestedPairStart onlyPlaceholdersHidden_nestedPairStart ["m", "m.n"]
    (nestedPairStart.clickAll {} ["m", "m.n"]) (by rw [snapshot, start_nestedPair]; rfl) "m.n" hc
    horphaned.1
  rw [horphaned.2 link t htarget] at hshown
  exact Bool.noConfusion hshown

end Snapshot
end GraphFolding
