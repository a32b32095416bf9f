/-
The order of the headers.

A click runs over all headers and shows or hides the clusters below the clicked one.  The text of
the drawing afterwards depends on which clusters these are, not on the order in which the headers
name them or on how often:

* `foldl_dedup`, `foldl_eq_foldl_of_mem_iff` — of steps that can be exchanged and that come to the
  same when done twice, it only counts which ones there are;
* `Drawing.Apart`, `writeAll_visibilityWrites_comm` — clusters that can be shown in either order;
  any two can be hidden in either order;
* `setVisibilities_congr` — cascades of the same clusters;
* `clickHeader_headers` — clicks with the headers in another order.
-/
import GraphFolding.Proofs.FlagFormulas
import GraphFolding.Proofs.RepeatedCalls
import Mathlib.Data.List.Dedup
namespace GraphFolding

/-! ### Steps in any order -/

section Steps

variable {α β : Type} [DecidableEq α] {step : β → α → β} {l l' : List α}

theorem foldl_dedup (hcomm : ∀ a ∈ l, ∀ b ∈ l, ∀ s, step (step s a) b = step (step s b) a)
    (htwice : ∀ a ∈ l, ∀ s, step (step s a) a = step s a) :
    ∀ s, l.dedup.foldl step s = l.foldl step s := by
  induction l with
  | nil => exact fun _ => rfl
  | cons a l ih =>
    intro s
    have hcomm' : ∀ b ∈ l, ∀ c ∈ l, ∀ s, step (step s b) c = step (step s c) b :=
      fun b hb c hc => hcomm b (List.mem_cons_of_mem a hb) c (List.mem_cons_of_mem a hc)
    have ih := ih hcomm' fun b hb => htwice b (List.mem_cons_of_mem a hb)
    by_cases ha : a ∈ l
    · -- The step is brought forward from where it comes again.
      have hforward : ∀ s, l.foldl step s = (l.erase a).foldl step (step s a) :=
        fun s => (List.perm_cons_erase ha).foldl_eq' hcomm' s
      rw [List.dedup_cons_of_mem ha, ih, List.foldl_cons, hforward, hforward,
        htwice a List.mem_cons_self]
    · rw [List.dedup_cons_of_notMem ha, List.foldl_cons, List.foldl_cons, ih]

/-- Of steps that can be exchanged, and that come to the same when done twice, it only counts
which ones there are. -/
theorem foldl_eq_foldl_of_mem_iff
    (hcomm : ∀ a ∈ l, ∀ b ∈ l, ∀ s, step (step s a) b = step (step s b) a)
    (htwice : ∀ a ∈ l, ∀ s, step (step s a) a = step s a) (h : ∀ a, a ∈ l' ↔ a ∈ l) (s : β) :
    l'.foldl step s = l.foldl step s := by
  have hperm : l'.dedup.Perm l.dedup :=
    (List.perm_ext_iff_of_nodup (List.nodup_dedup l') (List.nodup_dedup l)).mpr fun a => by
      rw [List.mem_dedup, List.mem_dedup, h]
  have hcomm' : ∀ a ∈ l', ∀ b ∈ l', ∀ s, step (step s a) b = step (step s b) a :=
    fun a ha b hb => hcomm a ((h a).mp ha) b ((h b).mp hb)
  rw [← foldl_dedup hcomm' fun a ha => htwice a ((h a).mp ha), ← foldl_dedup hcomm htwice]
  exact hperm.foldl_eq' (fun a ha b hb => hcomm' a (List.mem_dedup.mp ha) b (List.mem_dedup.mp hb))
    s

end Steps

theorem append_comm_of_forall_eq {α : Type} {a : α} {l l' : List α} (h : ∀ b ∈ l, b = a)
    (h' : ∀ b ∈ l', b = a) : l ++ l' = l' ++ l := by
  rw [List.eq_replicate_of_mem h, List.eq_replicate_of_mem h', List.replicate_append_replicate,
    List.replicate_append_replicate, Nat.add_comm]

namespace Drawing

variable {r : FoldRules} {w : Wiring}

/-! ### Two clusters in either order -/

/-- Whether no placeholder edge of a cluster is a member or the frame of another one. -/
def Apart (d : Drawing) (r : FoldRules) (cluster other : String) : Prop :=
  ∀ e ∈ d.clusterMembers r (r.placeholderFor cluster),
    e ∉ d.clusterMembers r other ∧ d.clusterFrame? r other ≠ some e

instance (d : Drawing) (r : FoldRules) (cluster other : String) :
    Decidable (d.Apart r cluster other) :=
  inferInstanceAs (Decidable (∀ e ∈ _, _))

/-- Without a trigger, a call hides its placeholder edges, and writes all else in its direction. -/
theorem eq_of_mem_visibilityWrites {d : Drawing} {cluster : String} {visible : Bool}
    {x : ClassWrite} (hx : x ∈ d.visibilityWrites r cluster none visible) :
    x.id ∈ d.clusterMembers r (r.placeholderFor cluster) ∧ x = ⟨x.id, r.hiddenClass, true⟩ ∨
      (x.id ∈ d.clusterMembers r cluster ∨ d.clusterFrame? r cluster = some x.id) ∧
        x = ⟨x.id, r.hiddenClass, !visible⟩ := by
  rw [visibilityWrites, List.mem_append, List.mem_append] at hx
  rcases hx with (hx | hx) | hx
  · obtain ⟨id, hid, rfl⟩ := List.mem_map.mp hx
    exact .inr ⟨.inr (Option.mem_toList.mp hid), rfl⟩
  · obtain ⟨id, hid, rfl⟩ := List.mem_map.mp hx
    exact .inr ⟨.inl hid, rfl⟩
  · obtain ⟨id, hid, rfl⟩ := List.mem_map.mp hx
    exact .inl ⟨hid, rfl⟩

/-- What two clusters write into an element they share is the same write, over and over: when
they are hidden, and when they are shown and their placeholder edges are apart. -/
theorem exists_common_write {d : Drawing} {c c' : String} {visible : Bool}
    (hapart : visible = true → d.Apart r c c' ∧ d.Apart r c' c) {x x' : ClassWrite}
    (hx : x ∈ d.visibilityWrites r c none visible)
    (hx' : x' ∈ d.visibilityWrites r c' none visible) (hid : x.id = x'.id) :
    ∃ write, (∀ y ∈ d.visibilityWrites r c none visible, y.id = x.id → y = write) ∧
      ∀ y ∈ d.visibilityWrites r c' none visible, y.id = x.id → y = write := by
  cases visible with
  | false =>
    -- Everything is hidden, placeholder edges or not.
    refine ⟨⟨x.id, r.hiddenClass, true⟩, fun y hy hy' => ?_, fun y hy hy' => ?_⟩
    · exact hy' ▸ (eq_of_mem_visibilityWrites hy).elim And.right And.right
    · exact hy' ▸ (eq_of_mem_visibilityWrites hy).elim And.right And.right
  | true =>
    obtain ⟨happart, happart'⟩ := hapart rfl
    by_cases hplaceholder : x.id ∈ d.clusterMembers r (r.placeholderFor c)
    · -- A placeholder edge of the first cluster can only be one of the second cluster.
      have hall' := fun y (hy : y ∈ d.visibilityWrites r c' none true) (hy' : y.id = x.id) =>
        (eq_of_mem_visibilityWrites hy).resolve_right fun h =>
          not_or.mpr (happart y.id (hy' ▸ hplaceholder)) h.1
      have hplaceholder' := (hall' x' hx' hid.symm).1
      have hall := fun y (hy : y ∈ d.visibilityWrites r c none true) (hy' : y.id = x.id) =>
        (eq_of_mem_visibilityWrites hy).resolve_right fun h =>
          not_or.mpr (happart' y.id (hy'.trans hid ▸ hplaceholder')) h.1
      exact ⟨⟨x.id, r.hiddenClass, true⟩, fun y hy hy' => hy' ▸ (hall y hy hy').2,
        fun y hy hy' => hy' ▸ (hall' y hy hy').2⟩
    · have hall := fun y (hy : y ∈ d.visibilityWrites r c none true) (hy' : y.id = x.id) =>
        (eq_of_mem_visibilityWrites hy).resolve_left fun h => hplaceholder (hy' ▸ h.1)
      have hmember := (hall x hx rfl).1
      have hall' := fun y (hy : y ∈ d.visibilityWrites r c' none true) (hy' : y.id = x.id) =>
        (eq_of_mem_visibilityWrites hy).resolve_left fun h =>
          not_or.mpr (happart' x.id (hy' ▸ h.1)) hmember
      exact ⟨⟨x.id, r.hiddenClass, false⟩, fun y hy hy' => hy' ▸ (hall y hy hy').2,
        fun y hy hy' => hy' ▸ (hall' y hy hy').2⟩

/-- Two clusters can be hidden in either order, and shown if their placeholder edges are apart. -/
theorem writeAll_visibilityWrites_comm {d : Drawing} {c c' : String} {visible : Bool}
    (hapart : visible = true → d.Apart r c c' ∧ d.Apart r c' c) (d' : Drawing) :
    (d'.writeAll (d.visibilityWrites r c none visible)).writeAll
        (d.visibilityWrites r c' none visible) =
      (d'.writeAll (d.visibilityWrites r c' none visible)).writeAll
        (d.visibilityWrites r c none visible) := by
  rw [← writeAll_append, ← writeAll_append]
  refine writeAll_congr fun e el _ => congrArg el.switchAll ?_
  rw [List.filter_append, List.filter_append]
  by_cases hnil : (d.visibilityWrites r c none visible).filter (·.id = e) = []
  · rw [hnil, List.nil_append, List.append_nil]
  by_cases hnil' : (d.visibilityWrites r c' none visible).filter (·.id = e) = []
  · rw [hnil', List.nil_append, List.append_nil]
  -- Both clusters write the element.
  obtain ⟨x, hx⟩ := List.exists_mem_of_ne_nil _ hnil
  obtain ⟨x', hx'⟩ := List.exists_mem_of_ne_nil _ hnil'
  simp only [List.mem_filter, decide_eq_true_eq] at hx hx'
  obtain ⟨write, hall, hall'⟩ := exists_common_write hapart hx.1 hx'.1 (hx.2.trans hx'.2.symm)
  refine append_comm_of_forall_eq (a := write) (fun y hy => ?_) (fun y hy => ?_)
  · obtain ⟨hy, hid⟩ := List.mem_filter.mp hy
    exact hall y hy ((of_decide_eq_true hid).trans hx.2.symm)
  · obtain ⟨hy, hid⟩ := List.mem_filter.mp hy
    exact hall' y hy ((of_decide_eq_true hid).trans hx.2.symm)

/-! ### Cascades and clicks -/

/-- Cascades of the same clusters, in any order and with any repeats. -/
theorem setVisibilities_congr (hr : r.Separate) {d : Drawing} {visible : Bool}
    {clusters clusters' : List String} (h : ∀ c, c ∈ clusters' ↔ c ∈ clusters)
    (hapart : visible = true → ∀ c ∈ clusters, ∀ c' ∈ clusters, c ≠ c' → d.Apart r c c') :
    d.setVisibilities r visible clusters' = d.setVisibilities r visible clusters := by
  rw [setVisibilities_eq_writeAll hr (.refl r d), setVisibilities_eq_writeAll hr (.refl r d)]
  simp only [writeAll, List.foldl_flatMap]
  refine foldl_eq_foldl_of_mem_iff (fun c hc c' hc' d' => ?_) (fun c _ d' => ?_) h d
  · by_cases hne : c = c'
    · rw [hne]
    · exact writeAll_visibilityWrites_comm (fun hvisible =>
        ⟨hapart hvisible c hc c' hc' hne, hapart hvisible c' hc' c hc (Ne.symm hne)⟩) d'
  · exact writeAll_visibilityWrites_twice hr.hidden hr.collapsed d d' c none visible

/-- The order of the headers makes no difference.  Run a click on a header over any list of headers
that names the same clusters as the headers of the drawing do: over a permutation of them, say, or
with headers left out whose clusters are named elsewhere.  The drawing afterwards is the same, and
so is what the click reports of its direction.  If the click unfolds, no placeholder edge of a
cluster of its cascade may be a member or the frame of another one; if it folds, nothing is asked
for. -/
theorem clickHeader_headers (hr : r.Separate) (d : Drawing) {link : NodeId}
    (hlink : link ∈ w.headers) {headers : List NodeId}
    (hsame : ∀ c, (∃ header ∈ headers, d.attribute? header r.clusterAttribute = some c) ↔
      c ∈ w.clusters d r)
    (hapart : ∀ cluster container, d.target? r w link = some (cluster, container) →
      d.hasClass container r.collapsedClass = true →
      ∀ c ∈ d.cascaded r w.headers cluster, ∀ c' ∈ d.cascaded r w.headers cluster,
        c ≠ c' → d.Apart r c c') :
    (d.clickHeader r headers link).1 = (d.click r w link).1 ∧
      (d.clickHeader r headers link).2.expanded = (d.click r w link).2.expanded := by
  rcases h : d.target? r w link with _ | ⟨cluster, container⟩
  · rw [clickHeader_of_target?_eq_none hlink h, click_of_target?_eq_none h]
    exact ⟨rfl, rfl⟩
  · have hcascade : (d.cascade r headers cluster (d.hasClass container r.collapsedClass)).1 =
        (d.cascade r w.headers cluster (d.hasClass container r.collapsedClass)).1 := by
      rw [cascade_fst hr, cascade_fst hr,
        setVisibilities_congr hr (fun c => ?_) (hapart cluster container h)]
      rw [mem_cascaded, ← hsame, cascaded, List.mem_filter, List.mem_filterMap]
    rw [clickHeader_of_target?_eq_some h, click_of_target?_eq_some h]
    exact ⟨by rw [hcascade], rfl⟩

/-- The headers of `m.n` and `m.o`, which share a group, can be gone through in any order and more
than once when `m` is folded. -/
theorem clickHeader_headers_overlap :
    let w := (overlap.wire overlapRules).2
    let start := (overlap.wire overlapRules).1
    w.headers = [4, 5, 11] ∧
      (start.clickHeader overlapRules [11, 5, 4, 11] 4).1 = (start.click overlapRules w 4).1 ∧
      (start.click overlapRules w 4).2.expanded = some false := by
  intro w start
  have hto : ∀ c ∈ [11, 5, 4, 11].filterMap (start.attribute? · overlapRules.clusterAttribute),
      c ∈ w.clusters start overlapRules := by decide +kernel
  have hfrom : ∀ c ∈ w.clusters start overlapRules,
      c ∈ [11, 5, 4, 11].filterMap (start.attribute? · overlapRules.clusterAttribute) := by
    decide +kernel
  have htarget : start.target? overlapRules w 4 = some ("m", 1) := by decide +kernel
  have hopen : start.hasClass 1 "collapsed" = false := by decide +kernel
  have hsame : (start.clickHeader overlapRules [11, 5, 4, 11] 4).1 =
      (start.click overlapRules w 4).1 := by
    refine (clickHeader_headers separate_overlapRules start (by decide +kernel)
      (fun c => List.mem_filterMap.symm.trans ⟨hto c, hfrom c⟩) fun cluster container h hfolded => ?_).1
    -- The click folds.
    obtain ⟨rfl, rfl⟩ := Prod.mk.inj (Option.some_inj.mp (htarget.symm.trans h))
    exact Bool.noConfusion (hopen.symm.trans hfolded)
  exact ⟨by decide +kernel, hsame, (expanded_click htarget).trans (congrArg some hopen)⟩

/-- Unfolding depends on the order there: the group is a placeholder edge of `m.o`. -/
example :
    let w := (overlap.wire overlapRules).2
    let folded := ((overlap.wire overlapRules).1.click overlapRules w 4).1
    (folded.clickHeader overlapRules [4, 5, 11] 4).1.hasClass 1 "hide" = true ∧
      (folded.clickHeader overlapRules [11, 5, 4] 4).1.hasClass 1 "hide" = false := by
  decide +kernel

end Drawing
end GraphFolding
