/-
Calls that are repeated.

A call writes its frame and its members in one direction, and then its placeholder edges with one
word.  However these overlap in an element, and whatever its class list was like, the same call
finds the list as it would leave it:

* `isWord_of_mem_visibilityWrites` — what a call writes are class words;
* `writeAll_visibilityWrites_twice` — the writes of one call, done twice;
* `setVisibility_repeated` — a call that is repeated changes nothing at all.
-/
import GraphFolding.Proofs.WrittenWords
namespace GraphFolding.Drawing

open ClassList (IsWord)

variable {r : FoldRules}

section Words

variable (hhidden : IsWord r.hiddenClass) (hcollapsed : IsWord r.collapsedClass)
include hhidden hcollapsed

theorem isWord_of_mem_visibilityWrites {d : Drawing} {cluster : String}
    {trigger : Option NodeId} {visible : Bool} {x : ClassWrite}
    (hx : x ∈ d.visibilityWrites r cluster trigger visible) : IsWord x.word := by
  rcases word_of_mem_visibilityWrites hx with h | ⟨-, h⟩
  · exact h ▸ hhidden
  · exact h ▸ hcollapsed

/-- The writes of one call come to the same when done twice, in any drawing. -/
theorem writeAll_visibilityWrites_twice (d d' : Drawing) (cluster : String)
    (trigger : Option NodeId) (visible : Bool) :
    (d'.writeAll (d.visibilityWrites r cluster trigger visible)).writeAll
      (d.visibilityWrites r cluster trigger visible) =
        d'.writeAll (d.visibilityWrites r cluster trigger visible) := by
  rw [← writeAll_append]
  refine writeAll_congr fun e el _ => ?_
  rw [List.filter_append]
  refine Element.switchAll_append_self (fun x hx => ?_) ?_
  · exact isWord_of_mem_visibilityWrites hhidden hcollapsed (List.mem_filter.mp hx).1
  · -- Frame and members go one way; the placeholder edges come last, with one word.
    rw [visibilityWrites, List.filter_append]
    refine ClassList.switchWords_switchWords (fun x hx => (?_ : x.on = !visible))
      (fun x hx => (?_ : x.word = r.hiddenClass ∧ x.on = !(trigger.isSome && !visible))) _
    · rcases List.mem_append.mp (List.mem_filter.mp hx).1 with hx | hx
      · obtain ⟨_, -, rfl⟩ := List.mem_map.mp hx
        rfl
      · obtain ⟨_, -, rfl⟩ := List.mem_map.mp hx
        rfl
    · obtain ⟨_, -, rfl⟩ := List.mem_map.mp (List.mem_filter.mp hx).1
      exact ⟨rfl, rfl⟩

end Words

/-- A call that is repeated changes nothing at all.  For rules whose two words of folding are class
words, possibly the same one, and neither the class word of frames: whatever cluster is shown or
hidden, for whatever trigger, the same call once more leaves the drawing as it is, down to the
class list of an element that is frame, member, trigger and placeholder edge at once. -/
theorem setVisibility_repeated (hhidden : IsWord r.hiddenClass)
    (hcollapsed : IsWord r.collapsedClass) (hframe : r.frameClass ≠ r.hiddenClass)
    (hframe' : r.frameClass ≠ r.collapsedClass) (hclass : r.clusterAttribute ≠ "class")
    (d : Drawing) (cluster : String) (trigger : Option NodeId) (visible : Bool) :
    let once := (d.setVisibility r cluster trigger visible).1
    (once.setVisibility r cluster trigger visible).1 = once := by
  intro once
  -- The second call finds the same frame, members and placeholder edges.
  have hstep : Refolded r d once :=
    (reclassed_setVisibility r d cluster trigger visible).refolded hhidden hcollapsed
  rw [setVisibility_fst hclass, hstep.visibilityWrites_eq_of_ne hframe hframe' hclass]
  simp only [once, setVisibility_fst hclass]
  exact writeAll_visibilityWrites_twice hhidden hcollapsed d d cluster trigger visible

/-- A drawing whose one group is the frame, a member and a placeholder edge of `m`, where
containers are one level above their links. -/
def heap : Drawing where
  nodes := #[⟨.element ⟨"svg", [], []⟩, none, [1]⟩,
    ⟨.element ⟨"g", [], [("class", "hide  cluster hide")]⟩, some 0, [2, 4, 5]⟩,
    ⟨.element ⟨"title", [], []⟩, some 1, [3]⟩, ⟨.text "cluster_m", some 2, []⟩,
    ⟨.element ⟨"a", [], [("cluster", "m"), ("target", "t")]⟩, some 1, []⟩,
    ⟨.element ⟨"a", [], [("cluster", "not_m")]⟩, some 1, []⟩]
  root := 0
  prologue := []
  epilogue := []

/-- Folded into itself, the group is marked and in sight, and folding it again leaves it so. -/
theorem setVisibility_repeated_heap :
    let r : FoldRules := { containerDepth := 1 }
    let once := (heap.setVisibility r "m" (some 1) false).1
    heap.clusterFrame? r "m" = some 1 ∧ heap.clusterMembers r "m" = [1] ∧
      heap.clusterMembers r (r.placeholderFor "m") = [1] ∧
      once.attribute? 1 "class" = some "cluster collapsed" ∧
      (once.setVisibility r "m" (some 1) false).1 = once := by
  intro r once
  refine ⟨by decide +kernel, by decide +kernel, by decide +kernel, by decide +kernel, ?_⟩
  exact setVisibility_repeated (by decide) (by decide) (by decide) (by decide) (by decide) heap "m"
    (some 1) false

end GraphFolding.Drawing
