/-
The algebra of switching class words.

Switching a class word on or off keeps the other words in their order, each once, and writes the
class list in normal form.  What follows is what the rest of folding counts on:

* `normalForm_switch` — distinct words, joined by single spaces;
* `words_switch_true`, `words_switch_false` — which words these are, and in which order;
* `switch_true_false`, `agreeBut_switch` — of two switches of one word the later one counts, but
  for the place where the word stands;
* `switch_comm` — switches of two words can be exchanged, but for the order of the words;
* `classAlgebra` — all of it, for class lists and for the elements of a drawing.
-/
import GraphFolding.Proofs.ClassWrites
namespace GraphFolding

namespace ClassList

variable {word : String}

/-! ### Normal form -/

/-- Distinct words, joined by single spaces, and no blank before the first or after the last. -/
structure NormalForm (value : String) : Prop where
  joined : " ".intercalate (words value) = value
  nodup : (words value).Nodup
  starts : ∀ c ∈ value.toList.head?, isBlank c = false
  ends : ∀ c ∈ value.toList.getLast?, isBlank c = false

/-- Joined words begin as the first of them does. -/
theorem isBlank_of_mem_head?_intercalate {ws : List String} (hw : ∀ w ∈ ws, IsWord w) {c : Char}
    (hc : c ∈ (" ".intercalate ws).toList.head?) : isBlank c = false := by
  rw [String.toList_intercalate] at hc
  rcases ws with _ | ⟨w, ws⟩
  · simp at hc
  · obtain ⟨hne, hblank⟩ := hw w List.mem_cons_self
    obtain ⟨a, rest, hcons⟩ := List.exists_cons_of_ne_nil (mt String.toList_eq_nil_iff.mp hne)
    have ha : a = c := by cases ws <;> simpa [hcons] using hc
    exact hblank c (ha ▸ hcons ▸ List.mem_cons_self)

/-- Joined words end as the last of them does. -/
theorem isBlank_of_mem_getLast?_intercalate {ws : List String} (hw : ∀ w ∈ ws, IsWord w) {c : Char}
    (hc : c ∈ (" ".intercalate ws).toList.getLast?) : isBlank c = false := by
  rcases List.eq_nil_or_concat ws with rfl | ⟨others, last, rfl⟩
  · simp at hc
  · obtain ⟨hne, hblank⟩ := hw last (by simp)
    -- What stands before the last word does not matter.
    have hend : ∃ before, (" ".intercalate (others ++ [last])).toList = before ++ last.toList := by
      rcases others with _ | ⟨w, others⟩
      · exact ⟨[], by simp⟩
      · rw [String.intercalate_append_of_ne_nil (by simp) (by simp)]
        rw [String.intercalate_singleton, String.toList_append]
        exact ⟨_, rfl⟩
    obtain ⟨before, hbefore⟩ := hend
    rw [List.concat_eq_append, hbefore, List.getLast?_append,
      List.getLast?_eq_some_getLast (mt String.toList_eq_nil_iff.mp hne), Option.some_or] at hc
    exact hblank c (Option.some_inj.mp hc ▸ List.getLast_mem _)

/-- A switched class list is in normal form. -/
theorem normalForm_switch (hw : IsWord word) (value : String) (on : Bool) :
    NormalForm (switch value word on) := by
  have hwords : ∀ w ∈ switchWord (distinct value) word on, IsWord w := fun w h =>
    isWord_of_mem_words (words_switch hw value on ▸ h)
  refine ⟨?_, ?_, fun c hc => isBlank_of_mem_head?_intercalate hwords hc,
    fun c hc => isBlank_of_mem_getLast?_intercalate hwords hc⟩
  · rw [words_switch hw, switch]
  · rw [words_switch hw]
    exact nodup_switchWord (nodup_eraseDups _) word on

/-! ### Switches one after the other -/

theorem words_switch_true (hw : IsWord word) (value : String) :
    words (switch value word true) =
      if word ∈ distinct value then distinct value else distinct value ++ [word] := by
  rw [words_switch hw, switchWord, if_pos rfl]
  simp only [List.contains_iff_mem]

theorem words_switch_false (hw : IsWord word) (value : String) :
    words (switch value word false) = (distinct value).filter (· ≠ word) := by
  rw [words_switch hw, switchWord, if_neg Bool.false_ne_true]

theorem filter_words_switch (hw : IsWord word) (value : String) (on : Bool) :
    (words (switch value word on)).filter (· ≠ word) = (distinct value).filter (· ≠ word) := by
  cases on with
  | true =>
    rw [words_switch_true hw]
    split
    · rfl
    · rw [List.filter_append]
      simp
  | false =>
    rw [words_switch_false hw, List.filter_filter]
    simp only [Bool.and_self]

/-- What is switched off again need not have been switched on. -/
theorem switch_true_false (hw : IsWord word) (value : String) :
    switch (switch value word true) word false = switch value word false := by
  rw [switch, distinct_switch hw, ← words_switch hw, switchWord, if_neg Bool.false_ne_true,
    filter_words_switch hw]
  rfl

/-- A word that was switched off comes back at the end. -/
theorem words_switch_false_true (hw : IsWord word) (value : String) :
    words (switch (switch value word false) word true) =
      (distinct value).filter (· ≠ word) ++ [word] := by
  have hout : word ∉ (distinct value).filter (· ≠ word) := by simp
  rw [words_switch_true hw, distinct_switch hw, switchWord, if_neg Bool.false_ne_true, if_neg hout]

/-- Two class lists hold the same words in the same order, but for the place of one of them. -/
def AgreeBut (word value value' : String) : Prop :=
  (words value).filter (· ≠ word) = (words value').filter (· ≠ word) ∧
    (word ∈ words value ↔ word ∈ words value')

/-- Of two switches of one word the later one counts. -/
theorem agreeBut_switch (hw : IsWord word) (value : String) (on on' : Bool) :
    AgreeBut word (switch (switch value word on) word on') (switch value word on') := by
  refine ⟨?_, by simp only [mem_words_switch hw, if_pos]⟩
  rw [filter_words_switch hw, filter_words_switch hw, distinct_switch hw, ← words_switch hw,
    filter_words_switch hw]

/-- Switches of two words can be exchanged. -/
theorem switch_comm {other : String} (hw : IsWord word) (hother : IsWord other)
    (hne : other ≠ word) (value : String) (on on' : Bool) (u : String) :
    u ∈ words (switch (switch value word on) other on') ↔
      u ∈ words (switch (switch value other on') word on) := by
  -- Either way, one switch decides about `u`, or none does.
  simp only [mem_words_switch hw, mem_words_switch hother]
  by_cases hu : u = word
  · have hu' : u ≠ other := fun h => hne (h.symm.trans hu)
    simp only [if_neg hu', if_pos hu]
  · simp only [if_neg hu]

/-- The laws of switching one word in the class lists of attributes. -/
structure SwitchLaws (word : String) : Prop where
  normal (value : String) (on : Bool) : NormalForm (switch value word on)
  words_on (value : String) : words (switch value word true) =
    if word ∈ distinct value then distinct value else distinct value ++ [word]
  words_off (value : String) : words (switch value word false) =
    (distinct value).filter (· ≠ word)
  idempotent (value : String) (on : Bool) :
    switch (switch value word on) word on = switch value word on
  overrides (value : String) (on on' : Bool) :
    AgreeBut word (switch (switch value word on) word on') (switch value word on')
  off_counts (value : String) : switch (switch value word true) word false =
    switch value word false
  on_comes_last (value : String) : words (switch (switch value word false) word true) =
    (distinct value).filter (· ≠ word) ++ [word]
  commutes (value : String) {other : String} (on on' : Bool) : IsWord other → other ≠ word →
    ∀ u, u ∈ words (switch (switch value word on) other on') ↔
      u ∈ words (switch (switch value other on') word on)

theorem switchLaws (hw : IsWord word) : SwitchLaws word where
  normal := normalForm_switch hw
  words_on := words_switch_true hw
  words_off := words_switch_false hw
  idempotent := switch_switch hw
  overrides := agreeBut_switch hw
  off_counts := switch_true_false hw
  on_comes_last := words_switch_false_true hw
  commutes value _ on on' hother hne := switch_comm hw hother hne value on on'

end ClassList

namespace Drawing

/-- The laws of switching one word in the class lists of a drawing. -/
structure SwitchLaws (d : Drawing) (word : String) : Prop where
  added (id : NodeId) : (d.addClass id word).hasClass id word = d.isElement id
  removed (id : NodeId) : (d.removeClass id word).hasClass id word = false
  other_words (id : NodeId) {u : String} (on : Bool) : u ≠ word →
    (d.setClass id word on).hasClass id u = d.hasClass id u
  other_elements {id e : NodeId} (on : Bool) : id ≠ e →
    (d.setClass id word on).element? e = d.element? e

theorem switchLaws {word : String} (hw : ClassList.IsWord word) (d : Drawing) :
    d.SwitchLaws word where
  added id := by simpa [setClass] using hasClass_setClass hw d id id word true
  removed id := by simpa [setClass] using hasClass_setClass hw d id id word false
  other_words id u on hu := by rw [hasClass_setClass hw, if_neg fun h => hu h.2]
  other_elements on hne := element?_setClass_of_ne hne d word on

/-- Switching a class word obeys the laws of a set of words with an order, whatever text the class
list was; in a drawing it decides about that word of that element, and about nothing else. -/
theorem classAlgebra {word : String} (hw : ClassList.IsWord word) :
    ClassList.SwitchLaws word ∧ ∀ d : Drawing, d.SwitchLaws word :=
  ⟨ClassList.switchLaws hw, switchLaws hw⟩

theorem classAlgebra_hide : ClassList.IsWord "hide" ∧
    ClassList.SwitchLaws "hide" ∧ ∀ d : Drawing, d.SwitchLaws "hide" :=
  ⟨by decide, classAlgebra (by decide)⟩

/-- Blanks of any kind and repeats go; what is switched on again comes last. -/
example : ClassList.switch (ClassList.switch " a\thide  b a" "hide" false) "hide" true = "a b hide" := by
  decide

end Drawing
end GraphFolding
