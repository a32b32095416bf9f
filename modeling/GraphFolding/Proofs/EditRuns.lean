/-
Runs of changes: whatever is done to a drawing that was read, its nodes form a forest.

* `Edit`, `EditState` — the changes there are, and a drawing with the elements that were created
  and never attached;
* `Edit.IsAllowed` — text goes into elements, and what is attached is such an element, put into
  an element that does not lie below it;
* `Drawing.Walkable` — what walks through a drawing rely on;
* `EditState.Sound.apply`, `EditState.Sound.run` — one change, and a run of them;
* `walkable_after_run` — the drawing after a run, and what was met in it earlier.
-/
import GraphFolding.Proofs.Editing
namespace GraphFolding

/-- What can be done to a drawing. -/
inductive Edit where
  | setAttribute (id : NodeId) (name value : String)
  | addClass (id : NodeId) (word : String)
  | removeClass (id : NodeId) (word : String)
  | ensureNamespace (name uri : String)
  | createElement (name : String) (attributes : List (String × String))
  | appendText (parent : NodeId) (value : String)
  | insertChild (parent : NodeId) (index : Nat) (child : NodeId)
  | appendChild (parent child : NodeId)
  | prepare (r : FoldRules) (style : StyleRules) (options : PrepareOptions)
  | fold (r : FoldRules) (action : FoldAction)

/-- A drawing, and the elements that were created in it and never attached. -/
structure EditState where
  drawing : Drawing
  loose : List NodeId := []

namespace Edit

/-- The drawing after a change; one that cannot be prepared stays as it is. -/
def apply (s : EditState) : Edit → EditState
  | setAttribute id name value => { s with drawing := s.drawing.setAttribute id name value }
  | addClass id word => { s with drawing := s.drawing.addClass id word }
  | removeClass id word => { s with drawing := s.drawing.removeClass id word }
  | ensureNamespace name uri => { s with drawing := s.drawing.ensureNamespace name uri }
  | createElement name attributes =>
    let (drawing, id) := s.drawing.createElement name attributes
    ⟨drawing, id :: s.loose⟩
  | appendText parent value => { s with drawing := s.drawing.appendText parent value }
  | insertChild parent index child =>
    ⟨s.drawing.insertChild parent index child, s.loose.filter (· ≠ child)⟩
  | appendChild parent child =>
    ⟨s.drawing.appendChild parent child, s.loose.filter (· ≠ child)⟩
  | prepare r style options =>
    match s.drawing.prepare r style options with
    | some (drawing, _) => { s with drawing }
    | none => s
  | fold r action => { s with drawing := action.apply r s.drawing }

/-- Whether an element that was created and never attached may be put into an element: it is
not the element itself, nor one around it. -/
def IsAttachable (s : EditState) (parent child : NodeId) : Prop :=
  s.drawing.isElement parent ∧ child ∈ s.loose ∧ ∀ n, s.drawing.ancestor? parent n ≠ some child

/-- Whether a change may be made: text goes into elements, and only what was created and never
attached is attached. -/
def IsAllowed (s : EditState) : Edit → Prop
  | appendText parent _ => s.drawing.isElement parent
  | insertChild parent _ child => IsAttachable s parent child
  | appendChild parent child => IsAttachable s parent child
  | _ => True

end Edit

namespace EditState

/-- The start of a run: nothing was created yet. -/
def start (d : Drawing) : EditState := ⟨d, []⟩

/-- The drawing after a run of changes. -/
def run (s : EditState) (edits : List Edit) : EditState := edits.foldl (fun s e => e.apply s) s

/-- Whether every change of a run may be made when its turn comes. -/
def Allows (s : EditState) : List Edit → Prop
  | [] => True
  | e :: edits => e.IsAllowed s ∧ (e.apply s).Allows edits

theorem run_append (s : EditState) (edits more : List Edit) :
    s.run (edits ++ more) = (s.run edits).run more :=
  List.foldl_append

theorem allows_append {more : List Edit} (edits : List Edit) : ∀ {s : EditState},
    s.Allows (edits ++ more) ↔ s.Allows edits ∧ (s.run edits).Allows more := by
  induction edits with
  | nil =>
    intro s
    exact ⟨fun h => ⟨trivial, h⟩, fun h => h.2⟩
  | cons e edits ih =>
    intro s
    rw [List.cons_append, Allows, Allows, ih, and_assoc]
    rfl

/-- A well-linked drawing, in which what counts as loose is loose. -/
structure Sound (s : EditState) : Prop where
  linked : s.drawing.WellLinked
  loose : ∀ id ∈ s.loose, s.drawing.IsLoose id

namespace Sound

open Drawing

variable {s : EditState} (hs : s.Sound)
include hs

/-- A change that attaches nothing old. -/
theorem extended {d : Drawing} (hd : d.WellLinked) (h : Extended s.drawing d) :
    Sound { s with drawing := d } ∧ Grown s.drawing d :=
  ⟨⟨hd, fun id hid => (hs.loose id hid).extended h⟩, h.grown⟩

/-- A change within tags. -/
theorem of_bare_eq {d : Drawing} (h : d.bare = s.drawing.bare) :
    Sound { s with drawing := d } ∧ Grown s.drawing d :=
  hs.extended (hs.linked.of_skeleton_eq (skeleton_eq_of_bare_eq h))
    (extended_of_skeleton_eq (skeleton_eq_of_bare_eq h))

theorem setClass (id : NodeId) (word : String) (on : Bool) :
    Sound { s with drawing := s.drawing.setClass id word on } ∧
      Grown s.drawing (s.drawing.setClass id word on) :=
  hs.of_bare_eq (bare_eq_of_unclassed_eq (unclassed_setClass s.drawing id word on))

/-- An element that was loose is attached. -/
theorem insertChild {parent child : NodeId} (h : Edit.IsAttachable s parent child) (index : Nat) :
    Sound ⟨s.drawing.insertChild parent index child, s.loose.filter (· ≠ child)⟩ ∧
      Grown s.drawing (s.drawing.insertChild parent index child) := by
  obtain ⟨hparent, hchild, habove⟩ := h
  obtain ⟨hlinked, hattached⟩ :=
    hs.linked.insertChild hparent (hs.loose child hchild) habove index
  refine ⟨⟨hlinked, ?_⟩, hattached.grown (hs.loose child hchild).parent?⟩
  intro id hid
  obtain ⟨hmem, hne⟩ := List.mem_filter.mp hid
  have hloose := hs.loose id hmem
  refine ⟨hattached.size ▸ hloose.lt, ?_, hattached.outermost ▸ hloose.not_mem⟩
  rw [hattached.parent?, if_neg (of_decide_eq_true hne), hloose.parent?]

/-- One change that may be made. -/
theorem apply {e : Edit} (he : e.IsAllowed s) :
    (e.apply s).Sound ∧ Grown s.drawing (e.apply s).drawing := by
  cases e with
  | setAttribute id name value => exact hs.of_bare_eq (bare_setAttribute s.drawing id name value)
  | addClass id word => exact hs.setClass id word true
  | removeClass id word => exact hs.setClass id word false
  | ensureNamespace name uri =>
    have hskeleton := skeleton_ensureNamespace s.drawing name uri
    exact hs.extended (hs.linked.of_skeleton_eq hskeleton) (extended_of_skeleton_eq hskeleton)
  | createElement name attributes =>
    have hextended := extended_pushNode s.drawing (.element ⟨name, [], attributes⟩)
    refine ⟨⟨hs.linked.pushNode _, ?_⟩, hextended.grown⟩
    intro id hid
    rcases List.mem_cons.mp hid with rfl | hid
    · exact isLoose_pushNode hs.linked _
    · exact (hs.loose id hid).extended hextended
  | appendText parent value =>
    obtain ⟨hlinked, hextended⟩ := hs.linked.appendText he value
    exact hs.extended hlinked hextended
  | insertChild parent index child => exact hs.insertChild he index
  | appendChild parent child => exact hs.insertChild he _
  | prepare r style options =>
    rcases h : s.drawing.prepare r style options with _ | ⟨d, w⟩
    · have hsame : (Edit.prepare r style options).apply s = s := by
        simp only [Edit.apply, h]
      rw [hsame]
      exact ⟨hs, .refl _⟩
    · have hprepared : (Edit.prepare r style options).apply s = { s with drawing := d } := by
        simp only [Edit.apply, h]
      obtain ⟨hlinked, hextended⟩ := hs.linked.prepare h
      rw [hprepared]
      exact hs.extended hlinked hextended
  | fold r action => exact hs.of_bare_eq (retouched_apply r s.drawing action).bare

end Sound

/-- A run of changes, each of which may be made. -/
theorem Sound.run (edits : List Edit) : ∀ {s : EditState}, s.Sound → s.Allows edits →
    (s.run edits).Sound ∧ s.drawing.Grown (s.run edits).drawing := by
  induction edits with
  | nil =>
    intro s hs _
    exact ⟨hs, .refl _⟩
  | cons e edits ih =>
    rintro s hs ⟨he, hedits⟩
    obtain ⟨hs', hgrown⟩ := hs.apply he
    obtain ⟨hs'', hmore⟩ := ih hs' hedits
    exact ⟨hs'', hgrown.trans hmore⟩

end EditState

namespace Drawing

/-- What walks through a drawing rely on: every link leads to a node of the table and is
answered by one link back, outermost nodes hang nowhere, nothing lies below itself, a walk down
from a node is over when its fuel is and meets each node below once, and a walk up ends. -/
structure Walkable (d : Drawing) : Prop where
  valid : ∀ id c, c ∈ d.children id → id < d.nodes.size ∧ c < d.nodes.size
  parent_valid : ∀ id p, d.parent? id = some p → p < d.nodes.size
  count_children : ∀ id c, (d.children id).count c = if d.parent? c = some id then 1 else 0
  outermost : ∀ id ∈ d.outermost, id < d.nodes.size ∧ d.parent? id = none ∧
    ∀ p, id ∉ d.children p
  acyclic : WellFounded fun c id => c ∈ d.children id
  walk_ends : ∀ id fuel, d.size id ≤ fuel → d.walk fuel [id] = d.descendants id
  nodup : ∀ id, (d.descendants id).Nodup
  mem_descendants : ∀ id x, x ∈ d.descendants id ↔ ∃ n, d.ancestor? x n = some id
  ancestors_end : ∀ id, ∃ n, d.ancestor? id n = none

theorem WellLinked.walkable {d : Drawing} (hd : d.WellLinked) : d.Walkable where
  valid _ c hc := ⟨lt_of_mem_children hc, (hd.linked _ c hc).1⟩
  parent_valid _ _ := hd.parent_lt
  count_children := hd.count_children
  outermost := by
    intro id hid
    obtain ⟨hlt, hparent⟩ := hd.toIsForest.outermost id hid
    refine ⟨hlt, hparent, fun p hp => ?_⟩
    rw [hd.mem_children_iff, hparent] at hp
    simp at hp
  acyclic := hd.acyclic
  walk_ends _ _ := hd.walk_eq_descendants
  nodup := hd.nodup_descendants
  mem_descendants _ _ := hd.mem_descendants_iff
  ancestors_end id := ⟨_, hd.ancestor?_eq_none id⟩

/-- The nodes of a drawing form a forest.  After any run of changes to a drawing that was read,
walks through the drawing can be relied on; whatever was named by the first part of the run
still has its name after the whole of it, and what was met then by a walk from the root is
still attached. -/
theorem walkable_after_run {text : String} {d : Drawing} (h : ofString text = .ok d)
    (before after : List Edit) (hallowed : (EditState.start d).Allows (before ++ after)) :
    let earlier := ((EditState.start d).run before).drawing
    let later := ((EditState.start d).run (before ++ after)).drawing
    later.Walkable ∧
      (∀ id name, earlier.name? id = some name → later.name? id = some name) ∧
      ∀ id ∈ earlier.descendants earlier.root, id ∈ later.descendants later.root := by
  intro earlier later
  have hstart : (EditState.start d).Sound := ⟨wellLinked_ofString h, by simp [EditState.start]⟩
  obtain ⟨hbefore, hafter⟩ := (EditState.allows_append before).mp hallowed
  obtain ⟨hearlier, -⟩ := hstart.run before hbefore
  obtain ⟨hlater, hgrown⟩ := hearlier.run after hafter
  rw [← EditState.run_append] at hlater hgrown
  refine ⟨hlater.linked.walkable, fun id name hname => hgrown.name? hname, ?_⟩
  exact fun id hid => hgrown.mem_descendants_root hearlier.linked hlater.linked hid

/-- A group is created in a drawing, given a text and a class, and put first below the root;
then the drawing is prepared.  The group is met from the root, and so is an old link. -/
theorem walkable_after_run_nestedPair :
    let before := [.createElement "g" [("id", "new")], .appendText 10 "note"]
    let after := [.addClass 10 "x", .insertChild 0 0 10, .prepare {} {} ⟨true, some "s.js"⟩]
    let later := ((EditState.start nestedPair).run (before ++ after)).drawing
    (EditState.start nestedPair).Allows (before ++ after) ∧ later.Walkable ∧
      later.name? 10 = some "g" ∧ 3 ∈ later.descendants later.root := by
  intro before after later
  let marked := ((EditState.start nestedPair).run (before ++ [.addClass 10 "x"])).drawing
  have hroot : marked.parent? 0 = none := by decide +kernel
  have habove : ∀ n, marked.ancestor? 0 n ≠ some 10 := by
    intro n
    cases n with
    | zero => decide
    | succ n => simp [ancestor?, hroot]
  have hcreated : ((EditState.start nestedPair).run [before[0]]).drawing.isElement 10 := by
    decide +kernel
  have hinside : marked.isElement 0 := by decide +kernel
  have hloose : 10 ∈ ((EditState.start nestedPair).run (before ++ [.addClass 10 "x"])).loose := by
    decide +kernel
  have hallowed : (EditState.start nestedPair).Allows (before ++ after) :=
    ⟨trivial, hcreated, trivial, ⟨hinside, hloose, habove⟩, trivial, trivial⟩
  obtain ⟨hwalkable, hname, hattached⟩ :=
    walkable_after_run ofString_nestedPair before after hallowed
  exact ⟨hallowed, hwalkable, hname 10 "g" (by decide +kernel), hattached 3 (by decide +kernel)⟩

end Drawing
end GraphFolding
