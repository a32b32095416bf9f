/-
What a list of writes leaves in the class list of one element.

An element takes the writes that are about it and no others.  The first of them that does
anything puts its class list into normal form, and from then on only the words count:

* `ClassList.switchWords`, `filter_switchWords` — the words after a list of writes; some of
  them can be followed without the others;
* `switchWords_switchWords` — writes of one direction, and after them writes of one word: done
  twice they leave what they leave when done once;
* `Element.switchAll`, `switchAll_congr` — an element after a list of writes, and when two
  lists come to the same;
* `element?_writeAll`, `writeAll_congr` — the same for all elements of a drawing.
-/
import GraphFolding.Proofs.Retouching
import GraphFolding.Proofs.WiredDrawings
namespace GraphFolding

open ClassList (IsWord)

namespace ClassList

/-! ### Words after a list of writes -/

/-- The words of a class list after writes, whatever element they are about. -/
def switchWords (present : List String) (writes : List ClassWrite) : List String :=
  writes.foldl (fun words x => switchWord words x.word x.on) present

theorem switchWords_cons (present : List String) (x : ClassWrite) (writes : List ClassWrite) :
    switchWords present (x :: writes) = switchWords (switchWord present x.word x.on) writes :=
  List.foldl_cons ..

theorem switchWords_append (present : List String) (writes more : List ClassWrite) :
    switchWords present (writes ++ more) = switchWords (switchWords present writes) more :=
  List.foldl_append

theorem nodup_switchWords (writes : List ClassWrite) : ∀ {present : List String},
    present.Nodup → (switchWords present writes).Nodup := by
  induction writes with
  | nil => exact id
  | cons x writes ih => exact fun h => ih (nodup_switchWord h x.word x.on)

theorem filter_switchWord (kept : String → Bool) (present : List String) (word : String)
    (on : Bool) : (switchWord present word on).filter kept =
      if kept word then switchWord (present.filter kept) word on else present.filter kept := by
  unfold switchWord
  cases on with
  | true =>
    simp only [if_true, List.contains_iff_mem, List.mem_filter]
    by_cases hmem : word ∈ present <;> cases hkept : kept word <;> simp [hmem, hkept]
  | false =>
    simp only [Bool.false_eq_true, if_false, List.filter_filter]
    split
    · exact List.filter_congr fun u _ => Bool.and_comm _ _
    · rename_i hkept
      -- The word that is taken out is not kept anyway.
      refine List.filter_congr fun u _ => ?_
      by_cases hu : u = word
      · simp [hu, hkept]
      · simp [hu]

/-- Some words of a class list can be followed without the others. -/
theorem filter_switchWords (kept : String → Bool) (writes : List ClassWrite) :
    ∀ (present : List String), (switchWords present writes).filter kept =
      switchWords (present.filter kept) (writes.filter (kept ·.word)) := by
  induction writes with
  | nil => exact fun _ => rfl
  | cons x writes ih =>
    intro present
    rw [switchWords_cons, ih, filter_switchWord, List.filter_cons]
    split
    · rw [switchWords_cons]
    · rfl

/-- Words that no write is about stay in their order. -/
theorem filter_switchWords_of_forall {kept : String → Bool} {writes : List ClassWrite}
    (h : ∀ x ∈ writes, kept x.word = false) (present : List String) :
    (switchWords present writes).filter kept = present.filter kept := by
  have hnone : writes.filter (kept ·.word) = [] :=
    List.filter_eq_nil_iff.mpr fun x hx => by simp [h x hx]
  rw [filter_switchWords, hnone]
  rfl

/-! ### Writes of one direction -/

theorem mem_switchWords_of_on {writes : List ClassWrite} (h : ∀ x ∈ writes, x.on = true)
    {u : String} : ∀ {present : List String},
    u ∈ switchWords present writes ↔ u ∈ present ∨ ∃ x ∈ writes, x.word = u := by
  induction writes with
  | nil => simp [switchWords]
  | cons x writes ih =>
    intro present
    rw [switchWords_cons, ih fun y hy => h y (List.mem_cons_of_mem x hy), mem_switchWord,
      h x List.mem_cons_self]
    by_cases hu : u = x.word
    · simp [hu]
    · simp [hu, Ne.symm hu]

/-- Who switches on what is there changes nothing. -/
theorem switchWords_eq_self {writes : List ClassWrite} {present : List String}
    (h : ∀ x ∈ writes, x.on = true ∧ x.word ∈ present) : switchWords present writes = present := by
  refine foldl_eq_self fun x hx => ?_
  obtain ⟨hon, hmem⟩ := h x hx
  rw [switchWord, if_pos hon, if_pos (List.contains_iff_mem.mpr hmem)]

/-- Who switches off takes out all the words that are named. -/
theorem switchWords_eq_filter {writes : List ClassWrite} (h : ∀ x ∈ writes, x.on = false) :
    ∀ (present : List String), switchWords present writes =
      present.filter fun u => decide (u ∉ writes.map (·.word)) := by
  induction writes with
  | nil => exact fun present => (List.filter_eq_self.mpr fun _ _ => rfl).symm
  | cons x writes ih =>
    intro present
    rw [switchWords_cons, ih fun y hy => h y (List.mem_cons_of_mem x hy), switchWord,
      h x List.mem_cons_self, if_neg (by decide), List.filter_filter]
    refine List.filter_congr fun u _ => ?_
    by_cases hu : u = x.word <;> simp [hu]

/-- Writes of one direction, done twice. -/
theorem switchWords_switchWords_of_uniform {writes : List ClassWrite} {on : Bool}
    (h : ∀ x ∈ writes, x.on = on) (present : List String) :
    switchWords (switchWords present writes) writes = switchWords present writes := by
  cases on with
  | true =>
    exact switchWords_eq_self fun x hx =>
      ⟨h x hx, (mem_switchWords_of_on h).mpr (.inr ⟨x, hx, rfl⟩)⟩
  | false =>
    rw [switchWords_eq_filter h, switchWords_eq_filter h]
    exact List.filter_eq_self.mpr fun u hu => (List.mem_filter.mp hu).2

theorem filter_filter_self (kept : String → Bool) (words : List String) :
    (words.filter kept).filter kept = words.filter kept :=
  List.filter_eq_self.mpr fun _ hu => (List.mem_filter.mp hu).2

/-- Writes of one direction, and after them writes of one word that go one way: done twice they
leave what they leave when done once.  (If two words were switched on at the end, the second time
could leave them in another order.) -/
theorem switchWords_switchWords {first last : List ClassWrite} {on later : Bool} {word : String}
    (hfirst : ∀ x ∈ first, x.on = on) (hlast : ∀ x ∈ last, x.word = word ∧ x.on = later)
    (present : List String) :
    switchWords (switchWords present (first ++ last)) (first ++ last) =
      switchWords present (first ++ last) := by
  have hlater : ∀ x ∈ last, x.on = later := fun x hx => (hlast x hx).2
  cases on with
  | false =>
    let kept := fun u => decide (u ∉ first.map (·.word))
    have hout : ∀ words, switchWords words first = words.filter kept :=
      switchWords_eq_filter hfirst
    -- The second time, what was written last is taken out again, or it is left as it is.
    have hagain : ∀ words, switchWords (switchWords words (last.filter (kept ·.word))) last =
        switchWords words last := by
      intro words
      by_cases hkept : kept word
      · rw [List.filter_eq_self.mpr fun x hx => by rw [(hlast x hx).1, hkept],
          switchWords_switchWords_of_uniform hlater]
      · rw [List.filter_eq_nil_iff.mpr fun x hx => by rwa [(hlast x hx).1]]
        rfl
    simp only [switchWords_append, hout]
    rw [filter_switchWords, filter_filter_self, hagain]
  | true =>
    cases later with
    | true =>
      have hon : ∀ x ∈ first ++ last, x.on = true :=
        fun x hx => (List.mem_append.mp hx).elim (hfirst x) (hlater x)
      exact switchWords_switchWords_of_uniform hon present
    | false =>
      let kept := fun u => decide (u ∉ last.map (·.word))
      have hout : ∀ words, switchWords words last = words.filter kept :=
        switchWords_eq_filter hlater
      -- What is taken out in the end need not have been switched on before.
      have honce : ∀ words, switchWords words (first ++ last) =
          switchWords (words.filter kept) (first.filter (kept ·.word)) := by
        intro words
        rw [switchWords_append, hout, filter_switchWords]
      have hkept : (switchWords present (first ++ last)).filter kept =
          switchWords present (first ++ last) := by
        rw [switchWords_append, hout, filter_filter_self]
      have hon : ∀ x ∈ first.filter (kept ·.word), x.on = true :=
        fun x hx => hfirst x (List.mem_filter.mp hx).1
      rw [honce (switchWords present (first ++ last)), hkept, honce present]
      exact switchWords_switchWords_of_uniform hon _

end ClassList

/-! ### One element after a list of writes -/

theorem setEntry_setEntry (name value value' : String) (l : List (String × String)) :
    setEntry name value' (setEntry name value l) = setEntry name value' l := by
  induction l with
  | nil => simp [setEntry]
  | cons entry rest ih =>
    obtain ⟨key, old⟩ := entry
    by_cases hkey : key = name
    · simp [setEntry, hkey]
    · simp [setEntry, hkey, ih]

namespace Element

theorem setAttribute_setAttribute (e : Element) (name value value' : String) :
    (e.setAttribute name value).setAttribute name value' = e.setAttribute name value' := by
  simp only [setAttribute, setEntry_setEntry]

theorem setAttribute_eq_self {e : Element} {name value : String}
    (h : e.attribute? name = some value) : e.setAttribute name value = e := by
  rw [setAttribute, setEntry_eq_self h]

theorem attribute?_setAttribute_self (e : Element) (name value : String) :
    (e.setAttribute name value).attribute? name = some value := by
  rw [attribute?, setAttribute, lookup_setEntry, if_pos rfl]

/-- The words of the class list of an element, each once; an element without one has none. -/
def classWords (e : Element) : List String :=
  ClassList.distinct ((e.attribute? "class").getD "")

/-- An element after writes, whatever element they are about. -/
def switchAll (e : Element) (writes : List ClassWrite) : Element :=
  writes.foldl (fun e x => e.switchClass x.word x.on) e

theorem switchAll_cons (e : Element) (x : ClassWrite) (writes : List ClassWrite) :
    e.switchAll (x :: writes) = (e.switchClass x.word x.on).switchAll writes :=
  List.foldl_cons ..

theorem classWords_switchAll {writes : List ClassWrite} (hw : ∀ x ∈ writes, IsWord x.word) :
    ∀ (e : Element), (e.switchAll writes).classWords = ClassList.switchWords e.classWords writes := by
  induction writes with
  | nil => exact fun _ => rfl
  | cons x writes ih =>
    intro e
    rw [switchAll_cons, ih fun y hy => hw y (List.mem_cons_of_mem x hy), classWords,
      distinct_switchClass (hw x List.mem_cons_self), ClassList.switchWords_cons, classWords]

/-- Whether writes leave an element as it is without looking at its words: there are none, or
words are switched off where there is no class list. -/
def Ignores (e : Element) (writes : List ClassWrite) : Prop :=
  writes = [] ∨ e.attribute? "class" = none ∧ ∀ x ∈ writes, x.on = false

theorem switchAll_of_ignores {e : Element} {writes : List ClassWrite} (h : e.Ignores writes) :
    e.switchAll writes = e := by
  rcases h with rfl | ⟨hnone, hoff⟩
  · rfl
  · refine foldl_eq_self fun x hx => ?_
    simp only [switchClass, hnone, hoff x hx]

theorem switchClass_eq (e : Element) (word : String) (on : Bool) : e.switchClass word on =
    if e.attribute? "class" = none ∧ on = false then e
    else e.setAttribute "class" (" ".intercalate (ClassList.switchWord e.classWords word on)) := by
  unfold switchClass classWords
  cases on with
  | true =>
    rw [if_neg (by simp)]
    rfl
  | false => rcases hvalue : e.attribute? "class" with _ | value <;> simp [ClassList.switch]

/-- Any other writes put the class list into normal form: the words that are left, joined by
single spaces. -/
theorem switchAll_of_not_ignores {writes : List ClassWrite} (hw : ∀ x ∈ writes, IsWord x.word) :
    ∀ {e : Element}, ¬e.Ignores writes → e.switchAll writes =
      e.setAttribute "class" (" ".intercalate (ClassList.switchWords e.classWords writes)) := by
  induction writes with
  | nil => exact fun h => absurd (.inl rfl) h
  | cons x writes ih =>
    intro e h
    have hrest := fun y hy => hw y (List.mem_cons_of_mem x hy)
    have hwords := distinct_switchClass (hw x List.mem_cons_self) x.on e
    rw [← classWords, ← classWords] at hwords
    rw [switchAll_cons, ClassList.switchWords_cons, ← hwords]
    rw [switchClass_eq] at hwords ⊢
    by_cases hidle : e.attribute? "class" = none ∧ x.on = false
    · -- The first write does nothing yet.
      rw [if_pos hidle] at hwords ⊢
      refine ih hrest fun hignores => h ?_
      rcases hignores with rfl | ⟨hnone, hoff⟩
      · exact .inr ⟨hidle.1, by simpa using hidle.2⟩
      · exact .inr ⟨hnone, List.forall_mem_cons.mpr ⟨hidle.2, hoff⟩⟩
    · rw [if_neg hidle] at hwords ⊢
      by_cases hnil : writes = []
      · rw [hnil, hwords]
        rfl
      · -- From now on there is a class list.
        rw [ih hrest, setAttribute_setAttribute]
        rintro (hempty | ⟨hnone, -⟩)
        · exact hnil hempty
        · rw [attribute?_setAttribute_self] at hnone
          exact Option.some_ne_none _ hnone

/-- Two lists of writes come to the same if they leave the same words and both do anything at
all. -/
theorem switchAll_congr {e : Element} {writes writes' : List ClassWrite}
    (hw : ∀ x ∈ writes, IsWord x.word) (hw' : ∀ x ∈ writes', IsWord x.word)
    (hignores : e.Ignores writes ↔ e.Ignores writes')
    (h : ClassList.switchWords e.classWords writes = ClassList.switchWords e.classWords writes') :
    e.switchAll writes = e.switchAll writes' := by
  by_cases hidle : e.Ignores writes
  · rw [switchAll_of_ignores hidle, switchAll_of_ignores (hignores.mp hidle)]
  · rw [switchAll_of_not_ignores hw hidle, switchAll_of_not_ignores hw'
      fun hidle' => hidle (hignores.mpr hidle'), h]

/-- Writes come to the same when done twice, if they leave the same words. -/
theorem switchAll_append_self {e : Element} {writes : List ClassWrite}
    (hw : ∀ x ∈ writes, IsWord x.word)
    (h : ClassList.switchWords (ClassList.switchWords e.classWords writes) writes =
      ClassList.switchWords e.classWords writes) :
    e.switchAll (writes ++ writes) = e.switchAll writes := by
  refine switchAll_congr (fun x hx => (List.mem_append.mp hx).elim (hw x) (hw x)) hw ?_
    ((ClassList.switchWords_append ..).trans h)
  simp [Ignores]

end Element

/-! ### All elements after a list of writes -/

namespace Drawing

theorem getElem?_writeAll (writes : List ClassWrite) (e : NodeId) : ∀ (d : Drawing),
    (d.writeAll writes).nodes[e]? =
      d.nodes[e]?.map (·.mapElement (·.switchAll (writes.filter (·.id = e)))) := by
  induction writes with
  | nil =>
    intro d
    rcases hnode : d.nodes[e]? with _ | ⟨content, parent, children⟩
    · exact hnode
    · refine hnode.trans ?_
      cases content <;> rfl
  | cons x writes ih =>
    intro d
    rw [writeAll_cons, ih, setClass_eq_modifyElement, getElem?_modifyElement, List.filter_cons]
    by_cases hx : x.id = e
    · rw [if_pos hx, if_pos (decide_eq_true hx), Option.map_map]
      refine congrArg (Option.map · d.nodes[e]?) (funext fun node => ?_)
      obtain ⟨content, parent, children⟩ := node
      cases content <;> rfl
    · rw [if_neg hx, if_neg (by simpa using hx)]

/-- An element takes the writes that are about it. -/
theorem element?_writeAll (d : Drawing) (writes : List ClassWrite) (e : NodeId) :
    (d.writeAll writes).element? e =
      (d.element? e).map (·.switchAll (writes.filter (·.id = e))) := by
  rw [element?_eq, element?_eq, getElem?_writeAll]
  rcases d.nodes[e]? with _ | ⟨content, parent, children⟩
  · rfl
  · cases content <;> rfl

/-- Two lists of writes come to the same if they do so in every element. -/
theorem writeAll_congr {d : Drawing} {writes writes' : List ClassWrite}
    (h : ∀ e el, d.element? e = some el →
      el.switchAll (writes.filter (·.id = e)) = el.switchAll (writes'.filter (·.id = e))) :
    d.writeAll writes = d.writeAll writes' := by
  have hrest := (unclassed_writeAll writes d).trans (unclassed_writeAll writes' d).symm
  refine eq_of_getElem?_eq (fun e => ?_) (congrArg (·.root) hrest) (congrArg (·.prologue) hrest)
    (congrArg (·.epilogue) hrest)
  rw [getElem?_writeAll, getElem?_writeAll]
  rcases hnode : d.nodes[e]? with _ | ⟨content, parent, children⟩
  · rfl
  · cases content with
    | element el =>
      have hel : d.element? e = some el := by
        rw [element?_eq, hnode]
        rfl
      simp only [Option.map_some, Node.mapElement, h e el hel]
    | _ => rfl

end Drawing
end GraphFolding
