/-
Marks that tell too much.

A container is marked as collapsed by the click that folds its cluster, and loses the mark by
the next click on it.  A cluster further out, folded and unfolded in between, shows the inner
one altogether and leaves the mark where it is: the mark has been outlived.

* `Act`, `Drawing.acts` — what the clicks of a run report, the latest first;
* `Act.marks`, `Act.stands`, `Act.outlived` — what the reports say about the mark of a
  container;
* `Drawing.Telling` — how marks, members and frame of a cluster go together;
* `telling_click`, `telling_afterClicks` — kept by one click on what is in sight, and by a run;
* `telling_of_ofString` — in drawings that were read, a mark in sight tells whether the frame
  of its cluster is hidden, unless it has been outlived;
* `not_forall_mark_iff_hidden` — so a mark alone does not tell.
-/
import GraphFolding.Proofs.FoldStates
namespace GraphFolding

/-- What a click reports: the cluster and the container it acted on, and whether it unfolded. -/
structure Act where
  cluster : String
  container : NodeId
  unfolded : Bool
  deriving DecidableEq, Repr

namespace Act

variable {r : FoldRules} {c : String} {t : NodeId}

/-- Whether the last act on a container folded its cluster. -/
def marks (t : NodeId) : List Act → Bool
  | [] => false
  | a :: earlier => if a.container = t then !a.unfolded else marks t earlier

/-- Whether the last act on a container folded its cluster `c`, and no act since has unfolded a
cluster that `c` lies in. -/
def stands (r : FoldRules) (c : String) (t : NodeId) : List Act → Bool
  | [] => false
  | a :: earlier =>
    if a.container = t then !a.unfolded
    else stands r c t earlier && !(a.unfolded && r.isBelow c a.cluster)

/-- Whether the last act on a container folded its cluster, but a cluster that this one lies in
was unfolded since. -/
def outlived (r : FoldRules) (c : String) (t : NodeId) (acts : List Act) : Bool :=
  marks t acts && !stands r c t acts

theorem marks_of_stands {acts : List Act} (h : stands r c t acts = true) :
    marks t acts = true := by
  induction acts with
  | nil => exact h
  | cons a earlier ih =>
    rw [stands] at h
    rw [marks]
    split
    · rename_i ha
      rwa [if_pos ha] at h
    · rename_i ha
      rw [if_neg ha, Bool.and_eq_true] at h
      exact ih h.1

theorem outlived_eq_true_iff {acts : List Act} :
    outlived r c t acts = true ↔ marks t acts = true ∧ stands r c t acts = false := by
  simp [outlived]

theorem outlived_eq_false_iff {acts : List Act} :
    outlived r c t acts = false ↔ marks t acts = stands r c t acts := by
  rw [← Bool.not_eq_true, outlived_eq_true_iff]
  cases hst : stands r c t acts with
  | true => simp [marks_of_stands hst]
  | false => simp

end Act

namespace Drawing

variable {r : FoldRules} {w : Wiring}

/-- What a click reports, if it acts on anything. -/
def act? (d : Drawing) (r : FoldRules) (w : Wiring) (link : NodeId) : Option Act :=
  match d.target? r w link, (d.click r w link).2.expanded with
  | some (cluster, container), some unfolded => some ⟨cluster, container, unfolded⟩
  | _, _ => none

/-- What the clicks of a run report, the latest first, on top of earlier reports. -/
def acts (d : Drawing) (r : FoldRules) (w : Wiring) (earlier : List Act) :
    List NodeId → List Act
  | [] => earlier
  | link :: links => (d.click r w link).1.acts r w ((d.act? r w link).toList ++ earlier) links

theorem act?_of_target?_eq_none {d : Drawing} {link : NodeId}
    (h : d.target? r w link = none) : d.act? r w link = none := by
  rw [act?, h]

theorem act?_of_target?_eq_some {d : Drawing} {link : NodeId} {cluster : String}
    {container : NodeId} (h : d.target? r w link = some (cluster, container)) :
    d.act? r w link = some ⟨cluster, container, d.hasClass container r.collapsedClass⟩ := by
  rw [act?, h, expanded_click h]

/-! ### What marks tell -/

/-- How the marks of a cluster, its members and its frame go together.  The containers of its
headers are marked by the last act on them.  While a mark stands the frame is hidden, and of
the members at most the marked one is in sight. -/
structure Telling (d : Drawing) (r : FoldRules) (w : Wiring) (c : String) (frame : NodeId)
    (acts : List Act) : Prop where
  marked : ∀ link t, d.target? r w link = some (c, t) →
    d.hasClass t r.collapsedClass = Act.marks t acts
  hides : ∀ link t, d.target? r w link = some (c, t) → Act.stands r c t acts = true →
    d.hasClass frame r.hiddenClass = true
  stands : ∀ link t, d.target? r w link = some (c, t) → d.hasClass frame r.hiddenClass = true →
    d.hasClass t r.hiddenClass = false → Act.stands r c t acts = true
  unique : ∀ link t link' t', d.target? r w link = some (c, t) →
    d.target? r w link' = some (c, t') → Act.stands r c t acts = true →
    Act.stands r c t' acts = true → t = t'
  shown : d.hasClass frame r.hiddenClass = false → ∀ e ∈ d.clusterMembers r c,
    d.hasClass e r.hiddenClass = false
  folded : d.hasClass frame r.hiddenClass = true → ∀ e ∈ d.clusterMembers r c,
    ∀ e' ∈ d.clusterMembers r c, d.hasClass e r.hiddenClass = false →
    d.hasClass e' r.hiddenClass = false → e = e'

section Step

variable (hr : r.Separate) {d : Drawing} (hd : d.Wired w) (ho : d.Orderly r w) {c : String}
  {frame : NodeId} (hframe : d.clusterFrame? r c = some frame) {acts : List Act}
  (ht : d.Telling r w c frame acts) {link : NodeId} {clicked : String} {k : NodeId}
  (h : d.target? r w link = some (clicked, k))
include hr hd ho hframe ht h

/-- A click on a container in sight of the cluster itself. -/
theorem telling_click_self (hsight : d.hasClass k r.hiddenClass = false) (hcc : c = clicked) :
    (d.click r w link).1.Telling r w c frame
      (⟨clicked, k, d.hasClass k r.collapsedClass⟩ :: acts) := by
  subst hcc
  have hc := clicked_mem_clusters h
  have hstep := refolded_click hr d w link
  have hirrefl : r.isBelow c c = false := ClusterPath.isBelow_irrefl c
  -- A mark that stands is the mark of the clicked container, since another one is hidden.
  have honly : ∀ link' t, d.target? r w link' = some (c, t) →
      Act.stands r c t acts = true → t = k := by
    intro link' t htarget hstands
    have hhidden := ht.hides link' t htarget hstands
    exact ht.unique link' t link k htarget h hstands (ht.stands link k h hhidden hsight)
  have hwrite := fun e => hidden_click_of_touches hr hd ho h hc (e := e)
  simp only [if_true] at hwrite
  have hcollapsed := collapsed_click hr hd h
  generalize hv : d.hasClass k r.collapsedClass = v at hwrite ⊢
  have hframe' : (d.click r w link).1.hasClass frame r.hiddenClass = !v := by
    rw [hwrite frame (.inr (.inr hframe)), ho.writtenFlag_frame hc hframe, Option.getD_some]
  have hself : (d.click r w link).1.hasClass k r.hiddenClass = false := by
    rw [hwrite k (.inl (hd.target_mem h)), ho.writtenFlag_trigger hc (hd.target_mem h),
      Option.getD_none, hsight]
  have hmember : ∀ e ∈ d.clusterMembers r c, k ≠ e →
      (d.click r w link).1.hasClass e r.hiddenClass = !v := by
    intro e he hne
    rw [hwrite e (.inl he), ho.writtenFlag_member hc he (by simpa using hne), Option.getD_some]
  have hstands : ∀ t, Act.stands r c t (⟨c, k, v⟩ :: acts) =
      if k = t then !v else Act.stands r c t acts := by
    intro t
    simp only [Act.stands, hirrefl, Bool.and_false, Bool.not_false, Bool.and_true]
  -- After the click, too, only its container can have a mark that stands.
  have honly' : ∀ link' t, d.target? r w link' = some (c, t) →
      Act.stands r c t (⟨c, k, v⟩ :: acts) = true → t = k ∧ v = false := by
    intro link' t htarget hst
    rw [hstands] at hst
    by_cases hkt : k = t
    · rw [if_pos hkt] at hst
      exact ⟨hkt.symm, by simpa using hst⟩
    · rw [if_neg hkt] at hst
      exact absurd (honly link' t htarget hst).symm hkt
  constructor
  case marked =>
    intro link' t htarget
    rw [target?_eq hr hstep] at htarget
    rw [hcollapsed, Act.marks]
    by_cases hkt : k = t
    · rw [if_pos hkt, if_pos hkt, ← hkt, hv]
    · rw [if_neg hkt, if_neg hkt, ht.marked link' t htarget]
  case hides =>
    intro link' t htarget hst
    rw [target?_eq hr hstep] at htarget
    rw [hframe', (honly' link' t htarget hst).2]
    rfl
  case stands =>
    intro link' t htarget hhidden hshown
    rw [target?_eq hr hstep] at htarget
    rw [hframe'] at hhidden
    rw [hstands]
    by_cases hkt : k = t
    · rw [if_pos hkt, hhidden]
    · rw [hmember t (hd.target_mem htarget) hkt, hhidden] at hshown
      exact Bool.noConfusion hshown
  case unique =>
    intro link₁ t₁ link₂ t₂ h₁ h₂ hst₁ hst₂
    rw [target?_eq hr hstep] at h₁ h₂
    rw [(honly' link₁ t₁ h₁ hst₁).1, (honly' link₂ t₂ h₂ hst₂).1]
  case shown =>
    intro hshown e he
    rw [hstep.clusterMembers_eq hr] at he
    rw [hframe'] at hshown
    by_cases hke : k = e
    · rw [← hke, hself]
    · rw [hmember e he hke, hshown]
  case folded =>
    intro hhidden
    rw [hframe'] at hhidden
    have hkept : ∀ e ∈ d.clusterMembers r c,
        (d.click r w link).1.hasClass e r.hiddenClass = false → e = k := by
      intro e he hshown
      refine Decidable.byContradiction fun hne => ?_
      rw [hmember e he (Ne.symm hne), hhidden] at hshown
      exact Bool.noConfusion hshown
    intro e he e' he' hshown hshown'
    rw [hstep.clusterMembers_eq hr] at he he'
    rw [hkept e he hshown, hkept e' he' hshown']

omit hframe in
/-- A click on another cluster leaves the marks of this one. -/
theorem marked_click_of_ne (hne : c ≠ clicked) (unfolded : Bool) {link' t : NodeId}
    (htarget : d.target? r w link' = some (c, t)) :
    (d.click r w link).1.hasClass t r.collapsedClass =
        Act.marks t (⟨clicked, k, unfolded⟩ :: acts) ∧
      Act.stands r c t (⟨clicked, k, unfolded⟩ :: acts) =
        (Act.stands r c t acts && !(unfolded && r.isBelow c clicked)) := by
  have hkt : k ≠ t := by
    rintro rfl
    exact hne (ho.members_unique (hd.target_mem htarget) (hd.target_mem h))
  rw [Act.marks, Act.stands, if_neg hkt, if_neg hkt]
  exact ⟨by rw [collapsed_click hr hd h, if_neg hkt, ht.marked link' t htarget], rfl⟩

/-- A click on a cluster that this one lies in: it is shown or hidden altogether. -/
theorem telling_click_above (hc : c ∈ w.clusters d r) (hne : c ≠ clicked)
    (hbelow : r.isBelow c clicked = true) :
    (d.click r w link).1.Telling r w c frame
      (⟨clicked, k, d.hasClass k r.collapsedClass⟩ :: acts) := by
  have hstep := refolded_click hr d w link
  have hwrite := fun e => hidden_click_of_touches hr hd ho h hc (e := e)
  simp only [if_neg hne, if_pos hbelow] at hwrite
  generalize d.hasClass k r.collapsedClass = v at hwrite ⊢
  have hframe' : (d.click r w link).1.hasClass frame r.hiddenClass = !v := by
    rw [hwrite frame (.inr (.inr hframe)), ho.writtenFlag_frame hc hframe, Option.getD_some]
  have hmember : ∀ e ∈ d.clusterMembers r c,
      (d.click r w link).1.hasClass e r.hiddenClass = !v := by
    intro e he
    rw [hwrite e (.inl he), ho.writtenFlag_member hc he (by simp), Option.getD_some]
  -- A mark still stands if it did so before, and the click has not unfolded.
  have hstands : ∀ link' t, d.target? r w link' = some (c, t) →
      Act.stands r c t (⟨clicked, k, v⟩ :: acts) = true →
      Act.stands r c t acts = true ∧ v = false := by
    intro link' t htarget hst
    rw [(marked_click_of_ne hr hd ho ht h hne v htarget).2, hbelow] at hst
    simpa using hst
  constructor
  case marked =>
    intro link' t htarget
    rw [target?_eq hr hstep] at htarget
    exact (marked_click_of_ne hr hd ho ht h hne v htarget).1
  case hides =>
    intro link' t htarget hst
    rw [target?_eq hr hstep] at htarget
    rw [hframe', (hstands link' t htarget hst).2]
    rfl
  case stands =>
    intro link' t htarget hhidden hshown
    rw [target?_eq hr hstep] at htarget
    rw [hframe'] at hhidden
    rw [hmember t (hd.target_mem htarget), hhidden] at hshown
    exact Bool.noConfusion hshown
  case unique =>
    intro link₁ t₁ link₂ t₂ h₁ h₂ hst₁ hst₂
    rw [target?_eq hr hstep] at h₁ h₂
    exact ht.unique link₁ t₁ link₂ t₂ h₁ h₂ (hstands link₁ t₁ h₁ hst₁).1
      (hstands link₂ t₂ h₂ hst₂).1
  case shown =>
    intro hshown e he
    rw [hstep.clusterMembers_eq hr] at he
    rw [hframe'] at hshown
    rw [hmember e he, hshown]
  case folded =>
    intro hhidden e he e' _ hshown _
    rw [hstep.clusterMembers_eq hr] at he
    rw [hframe'] at hhidden
    rw [hmember e he, hhidden] at hshown
    exact Bool.noConfusion hshown

/-- A click on any other cluster: nothing of this one is written. -/
theorem telling_click_apart (hc : c ∈ w.clusters d r) (hne : c ≠ clicked)
    (hbelow : r.isBelow c clicked = false) :
    (d.click r w link).1.Telling r w c frame
      (⟨clicked, k, d.hasClass k r.collapsedClass⟩ :: acts) := by
  have hstep := refolded_click hr d w link
  have hkeep := fun e => hidden_click_of_touches hr hd ho h hc (e := e)
  -- Members and frame are not written, so that every fact is the one from before.
  simp only [if_neg hne, hbelow, Bool.false_eq_true, if_false, Option.getD_none] at hkeep
  have hframe' := hkeep frame (.inr (.inr hframe))
  have hmember := fun e he => hkeep e (.inl he)
  have hstands : ∀ link' t, d.target? r w link' = some (c, t) →
      Act.stands r c t (⟨clicked, k, d.hasClass k r.collapsedClass⟩ :: acts) =
        Act.stands r c t acts := by
    intro link' t htarget
    rw [(marked_click_of_ne hr hd ho ht h hne _ htarget).2, hbelow, Bool.and_false, Bool.not_false,
      Bool.and_true]
  constructor
  case marked =>
    intro link' t htarget
    rw [target?_eq hr hstep] at htarget
    exact (marked_click_of_ne hr hd ho ht h hne _ htarget).1
  case hides =>
    intro link' t htarget hst
    rw [target?_eq hr hstep] at htarget
    rw [hstands link' t htarget] at hst
    rw [hframe', ht.hides link' t htarget hst]
  case stands =>
    intro link' t htarget hhidden hshown
    rw [target?_eq hr hstep] at htarget
    rw [hframe'] at hhidden
    rw [hmember t (hd.target_mem htarget)] at hshown
    rw [hstands link' t htarget, ht.stands link' t htarget hhidden hshown]
  case unique =>
    intro link₁ t₁ link₂ t₂ h₁ h₂ hst₁ hst₂
    rw [target?_eq hr hstep] at h₁ h₂
    rw [hstands link₁ t₁ h₁] at hst₁
    rw [hstands link₂ t₂ h₂] at hst₂
    exact ht.unique link₁ t₁ link₂ t₂ h₁ h₂ hst₁ hst₂
  case shown =>
    intro hshown e he
    rw [hstep.clusterMembers_eq hr] at he
    rw [hframe'] at hshown
    rw [hmember e he, ht.shown hshown e he]
  case folded =>
    intro hhidden e he e' he' hshown hshown'
    rw [hstep.clusterMembers_eq hr] at he he'
    rw [hframe'] at hhidden
    rw [hmember e he] at hshown
    rw [hmember e' he'] at hshown'
    exact ht.folded hhidden e he e' he' hshown hshown'

end Step

/-- A click on what is in sight keeps marks, members and frame together. -/
theorem telling_click (hr : r.Separate) {d : Drawing} (hd : d.Wired w) (ho : d.Orderly r w)
    {c : String} (hc : c ∈ w.clusters d r) {frame : NodeId}
    (hframe : d.clusterFrame? r c = some frame) {acts : List Act}
    (ht : d.Telling r w c frame acts) {link : NodeId}
    (hsight : ∀ target ∈ d.target? r w link, d.hasClass target.2 r.hiddenClass = false) :
    (d.click r w link).1.Telling r w c frame ((d.act? r w link).toList ++ acts) := by
  rcases h : d.target? r w link with _ | ⟨clicked, k⟩
  · rw [click_of_target?_eq_none h, act?_of_target?_eq_none h]
    exact ht
  · rw [act?_of_target?_eq_some h]
    by_cases hcc : c = clicked
    · exact telling_click_self hr hd ho hframe ht h (hsight _ h) hcc
    · by_cases hbelow : r.isBelow c clicked = true
      · exact telling_click_above hr hd ho hframe ht h hc hcc hbelow
      · exact telling_click_apart hr hd ho hframe ht h hc hcc (by simpa using hbelow)

/-! ### Runs -/

theorem telling_afterClicks (hr : r.Separate) {c : String} {frame : NodeId}
    {links : List NodeId} : ∀ {d : Drawing} {acts : List Act}, d.Wired w → d.Orderly r w →
    c ∈ w.clusters d r → d.clusterFrame? r c = some frame → d.Telling r w c frame acts →
    d.InSight r w links →
    (d.afterClicks r w links).Telling r w c frame (d.acts r w acts links) := by
  -- By induction on the clicks: one of them keeps `Telling`, and moves no cluster, header or
  -- frame that the next one looks up.
  induction links with
  | nil => exact fun _ _ _ _ ht _ => ht
  | cons link links ih =>
    intro d acts hd ho hc hframe ht hsight
    have hstep := refolded_click hr d w link
    rw [afterClicks_cons, Drawing.acts]
    exact ih (hd.refold hstep) (ho.refold hr hstep) (clusters_eq hr hstep w ▸ hc)
      ((hstep.clusterFrame?_eq hr c).trans hframe)
      (telling_click hr hd ho hc hframe ht hsight.1) hsight.2

/-- A drawing in which nothing carries a word of folding but placeholder edges. -/
def OnlyPlaceholdersMarked (d : Drawing) (r : FoldRules) : Prop :=
  ∀ e, (d.hasClass e r.hiddenClass = true ∨ d.hasClass e r.collapsedClass = true) →
    ∃ c, e ∈ d.clusterMembers r (r.placeholderFor c)

theorem OnlyPlaceholdersMarked.telling {d : Drawing} (hd : d.Wired w) (ho : d.Orderly r w)
    (hm : d.OnlyPlaceholdersMarked r) {c : String} (hc : c ∈ w.clusters d r) {frame : NodeId}
    (hframe : d.clusterFrame? r c = some frame) : d.Telling r w c frame [] := by
  have hmember : ∀ e ∈ d.clusterMembers r c,
      ¬(d.hasClass e r.hiddenClass = true ∨ d.hasClass e r.collapsedClass = true) := by
    -- A member that carries a word would be a placeholder edge, too.
    intro e he hword
    obtain ⟨c', hplaceholder⟩ := hm e hword
    exact ho.not_mem_of_placeholder hc hplaceholder he
  have hshown : d.hasClass frame r.hiddenClass ≠ true := by
    intro hhidden
    obtain ⟨c', hplaceholder⟩ := hm frame (.inl hhidden)
    exact ho.frame_not_mem hc hframe hplaceholder
  constructor
  case marked =>
    intro link t htarget
    have hnot := hmember t (hd.target_mem htarget)
    rw [not_or] at hnot
    simpa [Act.marks] using hnot.2
  case hides =>
    intro _ _ _ hst
    exact Bool.noConfusion hst
  case stands =>
    intro _ _ _ hhidden
    exact absurd hhidden hshown
  case unique =>
    intro _ _ _ _ _ _ hst
    exact Bool.noConfusion hst
  case shown =>
    intro _ e he
    have hnot := hmember e he
    rw [not_or] at hnot
    simpa using hnot.1
  case folded =>
    intro hhidden
    exact absurd hhidden hshown

/-- A container in sight: the frame of its cluster is hidden as long as its mark stands, and
the other members of the cluster are hidden with the frame. -/
theorem Telling.hidden_frame_eq {d : Drawing} (hd : d.Wired w) {c : String} {frame : NodeId}
    {acts : List Act} (ht : d.Telling r w c frame acts) {link t : NodeId}
    (htarget : d.target? r w link = some (c, t)) (hsight : d.hasClass t r.hiddenClass = false) :
    d.hasClass frame r.hiddenClass = Act.stands r c t acts ∧
      ∀ e ∈ d.clusterMembers r c, e ≠ t →
        d.hasClass e r.hiddenClass = d.hasClass frame r.hiddenClass := by
  constructor
  · cases hhidden : d.hasClass frame r.hiddenClass with
    | true => exact (ht.stands link t htarget hhidden hsight).symm
    | false =>
      cases hst : Act.stands r c t acts with
      | false => rfl
      | true => exact hhidden.symm.trans (ht.hides link t htarget hst)
  · intro e he hne
    cases hhidden : d.hasClass frame r.hiddenClass with
    | false => exact ht.shown hhidden e he
    | true =>
      cases hshown : d.hasClass e r.hiddenClass with
      | true => rfl
      | false =>
        exact absurd (ht.folded hhidden e he t (hd.target_mem htarget) hshown hsight) hne

/-- A click on a container hides the frame of its cluster if the container was not marked, and
shows it otherwise. -/
theorem hidden_frame_click (hr : r.Separate) {d : Drawing} (hd : d.Wired w)
    (ho : d.Orderly r w) {link : NodeId} {c : String} {t frame : NodeId}
    (htarget : d.target? r w link = some (c, t)) (hframe : d.clusterFrame? r c = some frame) :
    (d.click r w link).1.hasClass frame r.hiddenClass = !d.hasClass t r.collapsedClass := by
  have hc := clicked_mem_clusters htarget
  rw [hidden_click_of_touches hr hd ho htarget hc (.inr (.inr hframe)), if_pos rfl,
    ho.writtenFlag_frame hc hframe, Option.getD_some]

/-- What a mark in sight tells.  In a drawing that was read and wired, whose clusters share no
nodes and where only placeholder edges carry words of folding, click on headers in sight, as
often as you like.  A container of a header that is then in sight is marked just if the frame of
its cluster is hidden, unless its mark has been outlived: it was folded by the last click on it,
and a cluster that its own lies in was unfolded since.  An outlived mark stands beside a frame in
sight.  In either case all other members are hidden with the frame, and the next click on the
header turns the frame round exactly if the mark has not been outlived. -/
theorem telling_of_ofString {text : String} {d : Drawing} (hd : ofString text = .ok d)
    (hr : r.Separate) (ho : (d.wire r).1.Orderly r (d.wire r).2)
    (hm : (d.wire r).1.OnlyPlaceholdersMarked r) (links : List NodeId)
    (hsight : (d.wire r).1.InSight r (d.wire r).2 links) :
    let w := (d.wire r).2
    let now := (d.wire r).1.afterClicks r w links
    let acts := (d.wire r).1.acts r w [] links
    ∀ link c t frame, now.target? r w link = some (c, t) →
      now.clusterFrame? r c = some frame → now.hasClass t r.hiddenClass = false →
      (Act.outlived r c t acts = false →
        now.hasClass t r.collapsedClass = now.hasClass frame r.hiddenClass) ∧
      (Act.outlived r c t acts = true → now.hasClass t r.collapsedClass = true ∧
        now.hasClass frame r.hiddenClass = false) ∧
      (∀ e ∈ now.clusterMembers r c, e ≠ t →
        now.hasClass e r.hiddenClass = now.hasClass frame r.hiddenClass) ∧
      ((now.click r w link).1.hasClass frame r.hiddenClass =
        (!now.hasClass frame r.hiddenClass) ↔ Act.outlived r c t acts = false) := by
  intro w now acts link c t frame htarget hframe hshown
  have hstart : (d.wire r).1.Wired w := wired_wire (parentsAreElements_ofString hd) r
  have hrun : Refolded r (d.wire r).1 now := refolded_afterClicks hr (d.wire r).1 w links
  have hnow : now.Wired w := hstart.refold hrun
  have honow : now.Orderly r w := ho.refold hr hrun
  have hc : c ∈ w.clusters (d.wire r).1 r := clusters_eq hr hrun w ▸ clicked_mem_clusters htarget
  have hframe' : (d.wire r).1.clusterFrame? r c = some frame :=
    (hrun.clusterFrame?_eq hr c).symm.trans hframe
  have htell : now.Telling r w c frame acts :=
    telling_afterClicks hr hstart ho hc hframe' (hm.telling hstart ho hc hframe') hsight
  obtain ⟨hhidden, hmembers⟩ := htell.hidden_frame_eq hnow htarget hshown
  rw [hidden_frame_click hr hnow honow htarget hframe, htell.marked link t htarget]
  refine ⟨fun hfresh => ?_, fun hstale => ?_, hmembers, ?_⟩
  · rw [hhidden]
    exact Act.outlived_eq_false_iff.mp hfresh
  · rw [hhidden]
    exact Act.outlived_eq_true_iff.mp hstale
  · rw [hhidden, Act.outlived_eq_false_iff]
    exact Bool.not_inj_iff

/-! ### The outer cluster folded over the inner one -/

theorem onlyPlaceholdersMarked_framedPair :
    (framedPair.wire {}).1.OnlyPlaceholdersMarked {} := by
  have hall : ∀ e < (framedPair.wire {}).1.nodes.size,
      ¬((framedPair.wire {}).1.hasClass e "hide" = true ∨
        (framedPair.wire {}).1.hasClass e "collapsed" = true) := by
    decide +kernel
  intro e he
  have helement : (framedPair.wire {}).1.isElement e :=
    he.elim isElement_of_hasClass isElement_of_hasClass
  exact absurd he (hall e (lt_size_of_isElement helement))

theorem orderly_framedPair : (framedPair.wire {}).1.Orderly {} (framedPair.wire {}).2 := by
  decide +kernel

theorem inSight_framedPair :
    (framedPair.wire {}).1.InSight {} (framedPair.wire {}).2 [12, 9, 9] := by
  decide +kernel

/-- The inner cluster folded, then the outer one folded and unfolded. -/
def framedPairRefolded : Drawing :=
  (framedPair.wire {}).1.afterClicks {} (framedPair.wire {}).2 [12, 9, 9]

/-- The inner header is in sight again. -/
theorem framedPairRefolded_inner :
    framedPairRefolded.target? {} (framedPair.wire {}).2 12 = some ("m.n", 10) ∧
      framedPairRefolded.clusterFrame? {} "m.n" = some 4 ∧
      framedPairRefolded.hasClass 10 "hide" = false := by
  decide +kernel

/-- Its mark is outlived, and a click on it does not turn the frame round. -/
theorem telling_framedPair :
    Act.outlived {} "m.n" 10
        ((framedPair.wire {}).1.acts {} (framedPair.wire {}).2 [] [12, 9, 9]) = true ∧
      framedPairRefolded.hasClass 10 "collapsed" = true ∧
      framedPairRefolded.hasClass 4 "hide" = false ∧
      (framedPairRefolded.click {} (framedPair.wire {}).2 12).1.hasClass 4 "hide" = false := by
  obtain ⟨htarget, hframe, hsight⟩ := framedPairRefolded_inner
  have h := telling_of_ofString ofString_framedPair FoldRules.separate_default
    orderly_framedPair onlyPlaceholdersMarked_framedPair [12, 9, 9] inSight_framedPair 12 "m.n"
    10 4 htarget hframe hsight
  have hstale : Act.outlived {} "m.n" 10
      ((framedPair.wire {}).1.acts {} (framedPair.wire {}).2 [] [12, 9, 9]) = true := by
    decide +kernel
  obtain ⟨hmark, hshown⟩ := h.2.1 hstale
  have hkept : ¬(framedPairRefolded.click {} (framedPair.wire {}).2 12).1.hasClass 4 "hide" =
      !framedPairRefolded.hasClass 4 "hide" := by
    intro hturn
    rw [h.2.2.2.mp hturn] at hstale
    exact Bool.noConfusion hstale
  rw [show framedPairRefolded.hasClass 4 "hide" = false from hshown] at hkept
  exact ⟨hstale, hmark, hshown, by simpa using hkept⟩

/-- A mark in sight alone does not tell whether the frame is hidden. -/
theorem not_forall_mark_iff_hidden : ¬∀ text d, ofString text = .ok d →
    (d.wire {}).1.Orderly {} (d.wire {}).2 →
    (∀ c ∈ (d.wire {}).2.clusters (d.wire {}).1 {}, ((d.wire {}).1.clusterFrame? {} c).isSome) →
    (d.wire {}).1.OnlyPlaceholdersMarked {} → ∀ links,
    (d.wire {}).1.InSight {} (d.wire {}).2 links →
    let now := (d.wire {}).1.afterClicks {} (d.wire {}).2 links
    ∀ link c t frame, now.target? {} (d.wire {}).2 link = some (c, t) →
      now.clusterFrame? {} c = some frame → now.hasClass t "hide" = false →
      (now.hasClass t "collapsed" = true ↔ now.hasClass frame "hide" = true) := by
  intro h
  obtain ⟨htarget, hframe, hsight⟩ := framedPairRefolded_inner
  have hiff := h framedPairText framedPair ofString_framedPair orderly_framedPair
    (by decide +kernel) onlyPlaceholdersMarked_framedPair [12, 9, 9] inSight_framedPair 12 "m.n"
    10 4 htarget hframe hsight
  have hmark : framedPairRefolded.hasClass 10 "collapsed" = true ∧
      framedPairRefolded.hasClass 4 "hide" = false := by
    decide +kernel
  exact Bool.noConfusion (hmark.2.symm.trans (hiff.mp hmark.1))

end Drawing
end GraphFolding
