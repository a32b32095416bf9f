/-
Clusters that share no nodes.

* `Drawing.Touches` — the nodes that showing or hiding a cluster may write: its members, its
  placeholder edges and its frame;
* `Drawing.Orderly` — every container belongs to one cluster, and frames are apart;
* `Orderly.touches_unique` — then no node is touched by two clusters;
* `hidden_click_of_touches` — so a click writes into the nodes of a cluster what this cluster
  writes, and nothing else.
-/
import GraphFolding.Proofs.ClickEffect
import GraphFolding.Proofs.PathOrder
namespace GraphFolding.Drawing

variable {r : FoldRules} {w : Wiring}

/-- Whether showing or hiding a cluster may write the flag `hidden` of a node. -/
def Touches (d : Drawing) (r : FoldRules) (cluster : String) (e : NodeId) : Prop :=
  e ∈ d.clusterMembers r cluster ∨ e ∈ d.clusterMembers r (r.placeholderFor cluster) ∨
    d.clusterFrame? r cluster = some e

/-- A wired drawing in which the clusters of headers share no nodes: links with the same
container refer to the same cluster, references to clusters are told from those of
placeholder edges, and every frame is that of one cluster and contains no link. -/
structure Orderly (d : Drawing) (r : FoldRules) (w : Wiring) : Prop where
  oneCluster : ∀ l ∈ d.anchors, ∀ l' ∈ d.anchors, ∀ e ∈ d.ancestor? l r.containerDepth,
    d.ancestor? l' r.containerDepth = some e →
    d.attribute? l r.clusterAttribute = d.attribute? l' r.clusterAttribute
  noPlaceholder : ∀ c ∈ w.clusters d r, r.isPlaceholder c = false
  framesApart : ∀ c ∈ w.clusters d r, ∀ c' ∈ w.clusters d r, ∀ e ∈ d.clusterFrame? r c,
    d.clusterFrame? r c' = some e → c = c'
  framesOutside : ∀ c ∈ w.clusters d r, ∀ e ∈ d.clusterFrame? r c,
    ∀ l ∈ d.anchors, d.ancestor? l r.containerDepth ≠ some e

instance (d : Drawing) (r : FoldRules) (w : Wiring) : Decidable (d.Orderly r w) :=
  decidable_of_iff (_ ∧ _ ∧ _ ∧ _)
    ⟨fun h => ⟨h.1, h.2.1, h.2.2.1, h.2.2.2⟩, fun h => ⟨h.1, h.2, h.3, h.4⟩⟩

theorem isPlaceholder_placeholderFor (r : FoldRules) (cluster : String) :
    r.isPlaceholder (r.placeholderFor cluster) = true := by
  rw [FoldRules.isPlaceholder, FoldRules.placeholderFor, String.toList_append]
  exact List.isPrefixOf_iff_prefix.mpr (List.prefix_append ..)

theorem placeholderFor_inj {c c' : String} (h : r.placeholderFor c = r.placeholderFor c') :
    c = c' := by
  have hlist := congrArg String.toList h
  rw [FoldRules.placeholderFor, FoldRules.placeholderFor, String.toList_append,
    String.toList_append] at hlist
  exact String.toList_inj.mp (List.append_cancel_left hlist)

namespace Orderly

variable {d : Drawing}

/-- A container is a member of one cluster only. -/
theorem members_unique (ho : d.Orderly r w) {c c' : String} {e : NodeId}
    (h : e ∈ d.clusterMembers r c) (h' : e ∈ d.clusterMembers r c') : c = c' := by
  obtain ⟨l, hl, hc, he⟩ := mem_clusterMembers.mp h
  obtain ⟨l', hl', hc', he'⟩ := mem_clusterMembers.mp h'
  have heq := ho.oneCluster l hl l' hl' e he he'
  rw [hc, hc'] at heq
  exact Option.some_inj.mp heq

theorem not_mem_of_placeholder (ho : d.Orderly r w) {c c' : String} (hc : c ∈ w.clusters d r)
    {e : NodeId} (h : e ∈ d.clusterMembers r (r.placeholderFor c')) :
    e ∉ d.clusterMembers r c := by
  intro hmem
  have heq := ho.members_unique hmem h
  have hno := ho.noPlaceholder c hc
  rw [heq, isPlaceholder_placeholderFor] at hno
  exact Bool.noConfusion hno

theorem frame_not_mem (ho : d.Orderly r w) {c c' : String} (hc : c ∈ w.clusters d r)
    {e : NodeId} (h : d.clusterFrame? r c = some e) : e ∉ d.clusterMembers r c' := by
  intro hmem
  obtain ⟨l, hl, -, he⟩ := mem_clusterMembers.mp hmem
  exact ho.framesOutside c hc e h l hl he

/-- No node is touched by two clusters. -/
theorem touches_unique (ho : d.Orderly r w) {c c' : String} (hc : c ∈ w.clusters d r)
    (hc' : c' ∈ w.clusters d r) {e : NodeId} (h : d.Touches r c e) (h' : d.Touches r c' e) :
    c = c' := by
  rcases h with hm | hp | hf <;> rcases h' with hm' | hp' | hf'
  · exact ho.members_unique hm hm'
  · exact absurd hm (ho.not_mem_of_placeholder hc hp')
  · exact absurd hm (ho.frame_not_mem hc' hf')
  · exact absurd hm' (ho.not_mem_of_placeholder hc' hp)
  · exact placeholderFor_inj (ho.members_unique hp hp')
  · exact absurd hp (ho.frame_not_mem hc' hf')
  · exact absurd hm' (ho.frame_not_mem hc hf)
  · exact absurd hp' (ho.frame_not_mem hc hf)
  · exact ho.framesApart c hc c' hc' e hf hf'

end Orderly

/-! ### What is written into the nodes of a cluster -/

theorem writtenFlag_eq_none {d : Drawing} {cluster : String} {e : NodeId}
    (h : ¬d.Touches r cluster e) (trigger : Option NodeId) (visible : Bool) :
    d.writtenFlag r cluster trigger visible e = none := by
  rw [Touches, not_or, not_or] at h
  rw [writtenFlag, if_neg h.2.1, if_neg]
  exact fun h' => h'.elim (fun hm => h.1 hm.1) h.2.2

section Writes

variable {d : Drawing} {cluster : String} {e : NodeId}

theorem writtenFlag_placeholder (h : e ∈ d.clusterMembers r (r.placeholderFor cluster))
    (trigger : Option NodeId) (visible : Bool) :
    d.writtenFlag r cluster trigger visible e = some (trigger.isNone || visible) := by
  rw [writtenFlag, if_pos h]

theorem Orderly.writtenFlag_member (ho : d.Orderly r w) (hc : cluster ∈ w.clusters d r)
    (h : e ∈ d.clusterMembers r cluster) {trigger : Option NodeId} (htrigger : trigger ≠ some e)
    (visible : Bool) : d.writtenFlag r cluster trigger visible e = some !visible := by
  rw [writtenFlag, if_neg fun hp => ho.not_mem_of_placeholder hc hp h, if_pos (.inl ⟨h, htrigger⟩)]

/-- The trigger itself is not written. -/
theorem Orderly.writtenFlag_trigger (ho : d.Orderly r w) (hc : cluster ∈ w.clusters d r)
    (h : e ∈ d.clusterMembers r cluster) (visible : Bool) :
    d.writtenFlag r cluster (some e) visible e = none := by
  rw [writtenFlag, if_neg fun hp => ho.not_mem_of_placeholder hc hp h, if_neg]
  rintro (⟨-, hne⟩ | hf)
  · exact hne rfl
  · exact ho.frame_not_mem hc hf h

theorem Orderly.writtenFlag_frame (ho : d.Orderly r w) (hc : cluster ∈ w.clusters d r)
    (h : d.clusterFrame? r cluster = some e) (trigger : Option NodeId) (visible : Bool) :
    d.writtenFlag r cluster trigger visible e = some !visible := by
  rw [writtenFlag, if_neg (ho.frame_not_mem hc h), if_pos (.inr h)]

end Writes

/-- If one entry at most gives a value, a search finds that of this entry. -/
theorem findSome?_eq_of_mem {α β : Type} {l : List α} {f : α → Option β} {a : α} (ha : a ∈ l)
    (h : ∀ x ∈ l, x ≠ a → f x = none) : l.findSome? f = f a := by
  rcases hfind : l.findSome? f with _ | b
  · exact (List.findSome?_eq_none_iff.mp hfind a ha).symm
  · obtain ⟨x, hx, hb⟩ := List.exists_of_findSome?_eq_some hfind
    by_cases hxa : x = a
    · rw [← hxa, hb]
    · rw [h x hx hxa] at hb
      simp at hb

/-- The cluster of a click is that of a header. -/
theorem clicked_mem_clusters {d : Drawing} {link : NodeId} {clicked : String}
    {container : NodeId} (h : d.target? r w link = some (clicked, container)) :
    clicked ∈ w.clusters d r := by
  obtain ⟨hlink, hcluster, -⟩ := target?_eq_some.mp h
  rw [Wiring.clusters, List.mem_eraseDups]
  exact List.mem_filterMap.mpr ⟨link, hlink, hcluster⟩

/-- The flag `hidden` of a node of a cluster after a click: the cluster writes it if it is
the clicked one or lies below that. -/
theorem hidden_click_of_touches (hr : r.Separate) {d : Drawing} (hd : d.Wired w)
    (ho : d.Orderly r w) {link : NodeId} {clicked : String} {container : NodeId}
    (h : d.target? r w link = some (clicked, container)) {c : String}
    (hc : c ∈ w.clusters d r) {e : NodeId} (he : d.Touches r c e) :
    (d.click r w link).1.hasClass e r.hiddenClass =
      (if c = clicked then
        d.writtenFlag r c (some container) (d.hasClass container r.collapsedClass) e
      else if r.isBelow c clicked = true then
        d.writtenFlag r c none (d.hasClass container r.collapsedClass) e
      else none).getD (d.hasClass e r.hiddenClass) := by
  have hclicked := clicked_mem_clusters h
  -- Any other cluster of a header leaves the node alone.
  have hother : ∀ c' ∈ w.clusters d r, c' ≠ c → ∀ trigger visible,
      d.writtenFlag r c' trigger visible e = none := fun c' hc' hne =>
    writtenFlag_eq_none fun he' => hne (ho.touches_unique hc' hc he' he)
  have hcascade : ∀ sub ∈ (d.cascaded r w.headers clicked).reverse, sub ≠ c →
      d.writtenFlag r sub none (d.hasClass container r.collapsedClass) e = none :=
    fun sub hsub hne => hother sub (mem_cascaded.mp (List.mem_reverse.mp hsub)).1 hne none _
  have hnone : c ∉ d.cascaded r w.headers clicked →
      ((d.cascaded r w.headers clicked).reverse.findSome? fun sub =>
        d.writtenFlag r sub none (d.hasClass container r.collapsedClass) e) = none := by
    intro hmem
    refine List.findSome?_eq_none_iff.mpr fun sub hsub => hcascade sub hsub ?_
    rintro rfl
    exact hmem (List.mem_reverse.mp hsub)
  rw [hidden_click hr hd h]
  by_cases hcc : c = clicked
  · -- No cluster lies below itself, so the cascade does not write this one.
    rw [if_pos hcc, hcc, hnone, Option.getD_none]
    intro hmem
    have hbelow := (mem_cascaded.mp hmem).2
    rw [hcc, FoldRules.isBelow, ClusterPath.isBelow_irrefl] at hbelow
    exact Bool.noConfusion hbelow
  · rw [if_neg hcc, hother clicked hclicked (Ne.symm hcc), Option.getD_none]
    by_cases hbelow : r.isBelow c clicked = true
    · have hmem : c ∈ (d.cascaded r w.headers clicked).reverse :=
        List.mem_reverse.mpr (mem_cascaded.mpr ⟨hc, hbelow⟩)
      rw [if_pos hbelow, findSome?_eq_of_mem hmem hcascade]
    · rw [if_neg hbelow, hnone fun hmem => hbelow (mem_cascaded.mp hmem).2]

/-- Folding a drawing differently leaves it orderly. -/
theorem Orderly.refold (hr : r.Separate) {d d' : Drawing} (ho : d.Orderly r w)
    (h : Refolded r d d') : d'.Orderly r w := by
  have hclusters : w.clusters d' r = w.clusters d r := clusters_eq hr h w
  refine ⟨?_, ?_, ?_, ?_⟩
  · intro l hl l' hl' e he he'
    rw [h.cluster_eq hr, h.cluster_eq hr]
    rw [anchors_eq h.bare] at hl hl'
    rw [ancestor?_eq h.bare] at he he'
    exact ho.oneCluster l hl l' hl' e he he'
  · rw [hclusters]
    exact ho.noPlaceholder
  · rw [hclusters]
    simp only [h.clusterFrame?_eq hr]
    exact ho.framesApart
  · rw [hclusters, anchors_eq h.bare]
    simp only [h.clusterFrame?_eq hr, ancestor?_eq h.bare]
    exact ho.framesOutside

theorem Touches.refold (hr : r.Separate) {d d' : Drawing} (h : Refolded r d d')
    {cluster : String} {e : NodeId} : d'.Touches r cluster e ↔ d.Touches r cluster e := by
  rw [Touches, h.clusterMembers_eq hr, h.clusterMembers_eq hr, h.clusterFrame?_eq hr, Touches]

end GraphFolding.Drawing
