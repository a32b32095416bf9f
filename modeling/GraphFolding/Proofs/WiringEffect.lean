/-
What wiring does to a drawing.

Every link is stamped with the cluster it refers to.  A stamp changes no reference, so links
are sorted by what they were before wiring:

* `Drawing.bearsTarget`, `Drawing.refersToPlaceholder` — what makes a link a header, or one of
  a placeholder edge;
* `foldl_wireLink`, `wire_eq` — the wired drawing and its wiring;
* `attribute?_wire` — its attributes, but for class lists;
* `bare_wire` — a wired drawing is the same but for attributes;
* `wired_wire` — a wired drawing fits its wiring, if parents are elements in it.
-/
import GraphFolding.Proofs.ClassWrites
import GraphFolding.Proofs.ClickEffect
namespace GraphFolding.Drawing

variable {r : FoldRules}

theorem bare_stampLink (d : Drawing) (r : FoldRules) (link : NodeId) :
    (d.stampLink r link).bare = d.bare := by
  unfold stampLink
  split
  · exact bare_setAttribute d link _ _
  · rfl

/-! ### Stamps -/

theorem attribute?_stampLink (d : Drawing) (r : FoldRules) (link e : NodeId) (key : String) :
    (d.stampLink r link).attribute? e key =
      if link = e ∧ key = r.clusterAttribute ∧ d.isElement e then
        (d.reference? r link).or (d.attribute? e key)
      else d.attribute? e key := by
  unfold stampLink
  rcases d.reference? r link with _ | cluster
  · simp
  · exact attribute?_setAttribute d link e r.clusterAttribute key cluster

/-- What a search finds may be put at any place of the list without changing the result. -/
theorem findSome?_or_eq {α β : Type} [DecidableEq α] {f : α → Option β} {k : α} {v : β}
    {l : List α} (h : l.findSome? f = some v) :
    l.findSome? (fun a => if a = k then some v else f a) = some v := by
  induction l with
  | nil => simp at h
  | cons a l ih =>
    rw [List.findSome?_cons] at h ⊢
    by_cases hk : a = k
    · rw [if_pos hk]
    · rw [if_neg hk]
      rcases hf : f a with _ | u
      · rw [hf] at h
        exact ih h
      · rw [hf] at h
        exact h

/-- A stamp changes no reference, not even where references are read off clusters. -/
theorem reference?_stampLink (d : Drawing) (r : FoldRules) (link e : NodeId) :
    (d.stampLink r link).reference? r e = d.reference? r e := by
  rw [reference?, reference?]
  simp only [attribute?_stampLink]
  by_cases hlink : link = e
  · subst hlink
    cases hel : d.isElement link with
    | false => simp
    | true =>
      rcases href : d.reference? r link with _ | v
      · simp
      · rw [reference?] at href
        rw [href]
        simpa using findSome?_or_eq href
  · simp [hlink]

theorem attribute?_stampLink_stampLink (d : Drawing) (r : FoldRules) (link e : NodeId)
    (key : String) : ((d.stampLink r link).stampLink r e).attribute? e key =
      (d.stampLink r e).attribute? e key := by
  rw [attribute?_stampLink, attribute?_stampLink, attribute?_stampLink, reference?_stampLink,
    isElement_eq (bare_stampLink d r link)]
  by_cases hlink : link = e
  · -- The second stamp on a link says what the first one said.
    subst hlink
    rcases d.reference? r link with _ | v
    · simp
    · simp only [Option.some_or]
      split <;> simp_all
  · simp [hlink]

/-- Links stamped one after the other. -/
def stampAll (d : Drawing) (r : FoldRules) (links : List NodeId) : Drawing :=
  links.foldl (fun d link => d.stampLink r link) d

theorem bare_stampAll (r : FoldRules) (links : List NodeId) : ∀ (d : Drawing),
    (d.stampAll r links).bare = d.bare := by
  induction links with
  | nil => exact fun _ => rfl
  | cons link links ih => exact fun d => (ih _).trans (bare_stampLink d r link)

theorem attribute?_stampAll (r : FoldRules) {links : List NodeId} : ∀ (d : Drawing) (e : NodeId)
    (key : String), (d.stampAll r links).attribute? e key =
      if e ∈ links then (d.stampLink r e).attribute? e key else d.attribute? e key := by
  induction links with
  | nil => exact fun _ _ _ => (if_neg List.not_mem_nil).symm
  | cons link links ih =>
    intro d e key
    rw [stampAll, List.foldl_cons, ← stampAll, ih, attribute?_stampLink_stampLink]
    by_cases hmem : e ∈ links
    · rw [if_pos hmem, if_pos (List.mem_cons_of_mem link hmem)]
    · rw [if_neg hmem]
      by_cases hlink : e = link
      · rw [if_pos (hlink ▸ List.mem_cons_self), hlink]
      · rw [if_neg fun h => (List.mem_cons.mp h).elim hlink hmem, attribute?_stampLink,
          if_neg fun h => hlink h.1.symm]

/-! ### Links sorted -/

/-- Whether a link has a target; the attribute may be the very one that it is stamped with. -/
def bearsTarget (d : Drawing) (r : FoldRules) (link : NodeId) : Bool :=
  ((d.stampLink r link).attribute? link r.targetAttribute).isSome

/-- Whether a link refers to placeholder edges. -/
def refersToPlaceholder (d : Drawing) (r : FoldRules) (link : NodeId) : Bool :=
  (d.reference? r link).any r.isPlaceholder

theorem foldl_wireLink {links : List NodeId} : ∀ (d : Drawing) (w : Wiring),
    links.foldl (wireLink r) (d, w) = (d.stampAll r links,
      ⟨w.headers ++ links.filter (d.bearsTarget r), w.silent ++ links.filter (!d.bearsTarget r ·),
        w.placeholders ++ links.filter (d.refersToPlaceholder r)⟩) := by
  induction links with
  | nil =>
    intro d w
    simp [stampAll]
  | cons link links ih =>
    intro d w
    -- The links still to come are told apart as they were before this stamp.
    have htarget : (d.stampLink r link).bearsTarget r = d.bearsTarget r := by
      funext e
      rw [bearsTarget, attribute?_stampLink_stampLink, bearsTarget]
    have hreference : (d.stampLink r link).refersToPlaceholder r = d.refersToPlaceholder r := by
      funext e
      rw [refersToPlaceholder, reference?_stampLink, refersToPlaceholder]
    rw [List.foldl_cons, wireLink]
    rw [ih, htarget, hreference, stampAll, stampAll, List.foldl_cons, Wiring.addLink,
      ← bearsTarget, ← refersToPlaceholder]
    cases hb : d.bearsTarget r link <;> cases hp : d.refersToPlaceholder r link <;>
      simp [hb, hp]

/-- The containers of the placeholder edges of a drawing. -/
def placeholderContainers (d : Drawing) (r : FoldRules) : List NodeId :=
  (d.anchors.filter (d.refersToPlaceholder r)).filterMap (d.ancestor? · r.containerDepth)

/-- A wired drawing: its links are stamped, and then the placeholder edges are hidden. -/
theorem wire_eq (d : Drawing) (r : FoldRules) : d.wire r =
    ((d.stampAll r d.anchors).writeAll
        ((d.placeholderContainers r).map (⟨·, r.hiddenClass, true⟩)),
      ⟨d.anchors.filter (d.bearsTarget r), d.anchors.filter (!d.bearsTarget r ·),
        d.placeholderContainers r⟩) := by
  have hancestor : ((d.stampAll r d.anchors).ancestor? · r.containerDepth) =
      (d.ancestor? · r.containerDepth) :=
    funext fun link => ancestor?_eq (bare_stampAll r d.anchors d) link r.containerDepth
  rw [wire, foldl_wireLink]
  simp only [List.nil_append, hancestor, writeAll, List.foldl_map, placeholderContainers]

theorem mem_placeholderContainers {d : Drawing} {id : NodeId} :
    id ∈ d.placeholderContainers r ↔ ∃ link ∈ d.anchors, d.refersToPlaceholder r link = true ∧
      d.ancestor? link r.containerDepth = some id := by
  simp only [placeholderContainers, List.mem_filterMap, List.mem_filter, and_assoc]

theorem isElement_of_mem_placeholderContainers {d : Drawing} (hd : d.ParentsAreElements)
    {id : NodeId} (h : id ∈ d.placeholderContainers r) : d.isElement id = true := by
  obtain ⟨link, hlink, -, hancestor⟩ := mem_placeholderContainers.mp h
  exact isElement_of_ancestor? hd (isElement_of_mem_anchors hlink) hancestor

/-- Of the attributes other than class lists, wiring writes the clusters of links that refer to
one. -/
theorem attribute?_wire (d : Drawing) (r : FoldRules) (e : NodeId) {key : String}
    (hkey : key ≠ "class") : (d.wire r).1.attribute? e key =
      if e ∈ d.anchors ∧ key = r.clusterAttribute then (d.reference? r e).or (d.attribute? e key)
      else d.attribute? e key := by
  rw [wire_eq, attribute?_eq (unclassed_writeAll ..) hkey, attribute?_stampAll]
  by_cases hlink : e ∈ d.anchors
  · simp [attribute?_stampLink, hlink, isElement_of_mem_anchors hlink]
  · simp [hlink]

theorem headers_wire (d : Drawing) (r : FoldRules) :
    (d.wire r).2.headers = d.anchors.filter (d.bearsTarget r) := by
  rw [wire_eq]

theorem bare_wire (d : Drawing) (r : FoldRules) : (d.wire r).1.bare = d.bare := by
  rw [wire_eq]
  exact (bare_eq_of_unclassed_eq (unclassed_writeAll ..)).trans (bare_stampAll r _ d)

/-- A wired drawing fits its wiring. -/
theorem wired_wire {d : Drawing} (hd : d.ParentsAreElements) (r : FoldRules) :
    (d.wire r).1.Wired (d.wire r).2 where
  parents := hd.congr (bare_wire d r)
  headers link hlink := by
    rw [headers_wire] at hlink
    rw [anchors_eq (bare_wire d r)]
    exact (List.mem_filter.mp hlink).1

end GraphFolding.Drawing
