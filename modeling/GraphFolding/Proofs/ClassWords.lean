/-
Class lists and single words.

A class word is not empty and holds no blank.  Switching a word of a class list writes
the list in normal form, and the normal form reads back word by word:

* `words_intercalate_append`, `words_intercalate` — words joined by single spaces are read back as
  they are;
* `words_switch` — the words of a class list with one of them switched;
* `mem_words_switch` — switching a word decides about that word and about no other;
* `distinct_switch` — the words of a switched class list, each once, in their order;
* `switch_switch` — switching a word once more changes nothing;
* `holdsAfter`, `decide_mem_words_switch` — a word after any text was switched, be it a class word
  or not.
-/
import GraphFolding.ClassList
namespace GraphFolding

/-! ### Lists without repeats -/

theorem nodup_eraseDups {α : Type} [DecidableEq α] : ∀ (l : List α), l.eraseDups.Nodup
  | [] => List.nodup_nil
  | a :: l => by
    rw [List.eraseDups_cons, List.nodup_cons]
    refine ⟨fun h => ?_, nodup_eraseDups _⟩
    have h := (List.mem_filter.mp (List.mem_eraseDups.mp h)).2
    simp at h
termination_by l => l.length
decreasing_by exact Nat.lt_succ_of_le (List.length_filter_le _ l)

theorem eraseDups_eq_self {α : Type} [DecidableEq α] {l : List α} (h : l.Nodup) :
    l.eraseDups = l := by
  induction l with
  | nil => rfl
  | cons a l ih =>
    obtain ⟨ha, hl⟩ := List.nodup_cons.mp h
    have hfilter : l.filter (fun b => !b == a) = l := by
      refine List.filter_eq_self.mpr fun b hb => ?_
      simpa using fun hba : b = a => ha (hba ▸ hb)
    rw [List.eraseDups_cons, hfilter, ih hl]

namespace ClassList

/-! ### Words -/

/-- A class word: not empty, and without blanks. -/
def IsWord (word : String) : Prop := word ≠ "" ∧ ∀ c ∈ word.toList, isBlank c = false

instance (word : String) : Decidable (IsWord word) :=
  decidable_of_iff (word ≠ "" ∧ word.toList.all (!isBlank ·)) (by simp [IsWord])

/-- Text without blanks is one piece with what follows it up to the next blank. -/
theorem pieces_append {w : List Char} (hw : ∀ c ∈ w, isBlank c = false)
    {rest piece : List Char} {others : List (List Char)}
    (h : pieces rest = piece :: others) : pieces (w ++ rest) = (w ++ piece) :: others := by
  induction w with
  | nil => exact h
  | cons c w ih =>
    have hc : isBlank c = false := hw c List.mem_cons_self
    have hrest := ih fun c' hc' => hw c' (List.mem_cons_of_mem c hc')
    rw [List.cons_append, pieces, hrest, hc]
    rfl

/-- Pieces joined by single spaces, the last of which may hold any text. -/
theorem pieces_intercalate_append {ws : List (List Char)}
    (hw : ∀ w ∈ ws, ∀ c ∈ w, isBlank c = false) (v : List Char) :
    pieces ([' '].intercalate (ws ++ [v])) = ws ++ pieces v := by
  induction ws with
  | nil => simp
  | cons w ws ih =>
    obtain ⟨u, us, hus⟩ : ∃ u us, ws ++ [v] = u :: us := List.exists_cons_of_ne_nil (by simp)
    have hrest := ih fun x hx => hw x (List.mem_cons_of_mem w hx)
    have hspace : pieces (' ' :: [' '].intercalate (ws ++ [v])) = [] :: (ws ++ pieces v) := by
      rw [pieces, if_pos (by decide), hrest]
    have hjoin : [' '].intercalate (w :: ws ++ [v]) =
        w ++ ' ' :: [' '].intercalate (ws ++ [v]) := by
      rw [List.cons_append, hus]
      simp
    rw [hjoin, pieces_append (hw w List.mem_cons_self) hspace, List.append_nil, List.cons_append]

theorem isBlank_of_mem_pieces {cs piece : List Char} {c : Char} (hp : piece ∈ pieces cs)
    (hc : c ∈ piece) : isBlank c = false := by
  induction cs generalizing piece with
  | nil =>
    simp only [pieces, List.mem_singleton] at hp
    subst hp
    simp at hc
  | cons a rest ih =>
    rw [pieces] at hp
    split at hp
    · rcases List.mem_cons.mp hp with rfl | hp
      · simp at hc
      · exact ih hp hc
    · rename_i ha
      have ha : isBlank a = false := by simpa using ha
      split at hp
      · rcases List.mem_singleton.mp hp with rfl
        rcases List.mem_singleton.mp hc with rfl
        exact ha
      · rename_i first others hrest
        rcases List.mem_cons.mp hp with rfl | hp
        · rcases List.mem_cons.mp hc with rfl | hc
          · exact ha
          · exact ih (by rw [hrest]; exact List.mem_cons_self) hc
        · exact ih (by rw [hrest]; exact List.mem_cons_of_mem _ hp) hc

theorem isWord_of_mem_words {value word : String} (h : word ∈ words value) : IsWord word := by
  rw [words, List.mem_map] at h
  obtain ⟨piece, hp, rfl⟩ := h
  obtain ⟨hp, hne⟩ := List.mem_filter.mp hp
  refine ⟨fun he => ?_, fun c hc => ?_⟩
  · rw [← String.toList_inj, String.toList_ofList] at he
    rw [he] at hne
    exact absurd hne (by decide)
  · rw [String.toList_ofList] at hc
    exact isBlank_of_mem_pieces hp hc

/-- Text without blanks is one word. -/
theorem words_of_isWord {word : String} (hw : IsWord word) : words word = [word] := by
  have hnil : pieces [] = [[]] := rfl
  have hpieces : pieces word.toList = [word.toList] := by
    simpa using pieces_append hw.2 hnil
  have hne : (!word.toList.isEmpty) = true := by simpa using hw.1
  rw [words, hpieces, List.filter_cons, if_pos hne]
  simp

/-- Words joined by single spaces with any text behind them: the words of the text come last. -/
theorem words_intercalate_append {ws : List String} (hw : ∀ w ∈ ws, IsWord w) (text : String) :
    words (" ".intercalate (ws ++ [text])) = ws ++ words text := by
  have hblank : ∀ cs ∈ ws.map String.toList, ∀ c ∈ cs, isBlank c = false := by
    intro cs hcs c hc
    obtain ⟨v, hv, rfl⟩ := List.mem_map.mp hcs
    exact (hw v hv).2 c hc
  have hne : ∀ cs ∈ ws.map String.toList, (!cs.isEmpty) = true := by
    intro cs hcs
    obtain ⟨v, hv, rfl⟩ := List.mem_map.mp hcs
    have := (hw v hv).1
    simpa using this
  rw [words, String.toList_intercalate, show " ".toList = [' '] from rfl, List.map_append,
    List.map_singleton, pieces_intercalate_append hblank, List.filter_append,
    List.filter_eq_self.mpr hne, List.map_append, List.map_map, ← words]
  simp [Function.comp_def]

/-- Words joined by single spaces are read back as they are. -/
theorem words_intercalate {ws : List String} (hw : ∀ w ∈ ws, IsWord w) :
    words (" ".intercalate ws) = ws := by
  rcases List.eq_nil_or_concat ws with rfl | ⟨others, last, rfl⟩
  · decide
  · have hothers : ∀ w ∈ others, IsWord w := fun w h => hw w (by simp [h])
    rw [List.concat_eq_append, words_intercalate_append hothers,
      words_of_isWord (hw last (by simp))]

theorem mem_distinct {value word : String} : word ∈ distinct value ↔ word ∈ words value :=
  List.mem_eraseDups

theorem mem_switchWord {present : List String} {word u : String} {on : Bool} :
    u ∈ switchWord present word on ↔ if u = word then on = true else u ∈ present := by
  unfold switchWord
  by_cases hu : u = word
  · subst hu
    cases on <;> simp
    split <;> simp_all
  · cases on
    · simp [hu]
    · simp only [if_true, hu, if_false]
      split <;> simp [hu]

/-- The words of a class list with one of them switched. -/
theorem words_switch {word : String} (hw : IsWord word) (value : String) (on : Bool) :
    words (switch value word on) = switchWord (distinct value) word on := by
  refine words_intercalate fun u hu => ?_
  rw [mem_switchWord] at hu
  split at hu
  · rename_i h
    exact h ▸ hw
  · exact isWord_of_mem_words (mem_distinct.mp hu)

/-- Switching a word decides about that word and about no other. -/
theorem mem_words_switch {word : String} (hw : IsWord word) (value u : String) (on : Bool) :
    u ∈ words (switch value word on) ↔ if u = word then on = true else u ∈ words value := by
  rw [words_switch hw, mem_switchWord, mem_distinct]

theorem nodup_switchWord {present : List String} (h : present.Nodup) (word : String)
    (on : Bool) : (switchWord present word on).Nodup := by
  unfold switchWord
  split
  · split
    · exact h
    · rename_i hnot
      rw [List.contains_iff_mem] at hnot
      refine List.nodup_append.mpr ⟨h, by simp, fun u hu v hv => ?_⟩
      rw [List.mem_singleton.mp hv]
      exact fun heq => hnot (heq ▸ hu)
  · exact h.filter _

/-- A switched class list is in normal form: no word stands in it twice. -/
theorem distinct_switch {word : String} (hw : IsWord word) (value : String) (on : Bool) :
    distinct (switch value word on) = switchWord (distinct value) word on := by
  rw [distinct, words_switch hw]
  exact eraseDups_eq_self (nodup_switchWord (nodup_eraseDups _) word on)

theorem switchWord_switchWord (present : List String) (word : String) (on : Bool) :
    switchWord (switchWord present word on) word on = switchWord present word on := by
  cases on with
  | true =>
    have hcontains : (switchWord present word true).contains word = true := by
      rw [List.contains_iff_mem, mem_switchWord, if_pos rfl]
    rw [switchWord, if_pos rfl, if_pos hcontains]
  | false => exact List.filter_eq_self.mpr fun _ hu => (List.mem_filter.mp hu).2

/-- Who switches a word once more changes nothing. -/
theorem switch_switch {word : String} (hw : IsWord word) (value : String) (on : Bool) :
    switch (switch value word on) word on = switch value word on := by
  rw [switch, distinct_switch hw, switchWord_switchWord, switch]

/-! ### Any text switched -/

/-- Whether a word stands in a class list once any text was switched on or off in it: a text that
is switched on brings all its words, and one that is switched off takes the word that it is. -/
def holdsAfter (text u : String) (on before : Bool) : Bool :=
  if on then before || decide (u ∈ words text) else before && decide (u ≠ text)

/-- Who switches a text once more changes nothing. -/
theorem holdsAfter_holdsAfter (text u : String) (on before : Bool) :
    holdsAfter text u on (holdsAfter text u on before) = holdsAfter text u on before := by
  cases on with
  | true => simp only [holdsAfter, if_pos, Bool.or_assoc, Bool.or_self]
  | false =>
    simp only [holdsAfter, Bool.false_eq_true, if_false, Bool.and_assoc, Bool.and_self]

/-- Switching a word decides about that word and about no other. -/
theorem holdsAfter_of_isWord {word : String} (hw : IsWord word) (u : String) (on before : Bool) :
    holdsAfter word u on before = if u = word then on else before := by
  by_cases hu : u = word <;> cases on <;> simp [holdsAfter, words_of_isWord hw, hu]

/-- The words of a class list in which any text was switched on or off. -/
theorem decide_mem_words_switch (value text u : String) (on : Bool) :
    decide (u ∈ words (switch value text on)) =
      holdsAfter text u on (decide (u ∈ words value)) := by
  have hdistinct : ∀ v ∈ distinct value, IsWord v :=
    fun v hv => isWord_of_mem_words (mem_distinct.mp hv)
  rw [switch, switchWord]
  cases on with
  | false =>
    rw [if_neg (by decide), words_intercalate fun v hv => hdistinct v (List.mem_filter.mp hv).1]
    simp [holdsAfter, mem_distinct]
  | true =>
    rw [if_pos rfl]
    by_cases hmem : text ∈ distinct value
    · -- The text is a word that stands in the list already.
      rw [if_pos (List.contains_iff_mem.mpr hmem), words_intercalate hdistinct]
      have hword := words_of_isWord (hdistinct text hmem)
      by_cases hu : u = text
      · simp [holdsAfter, hword, hu, mem_distinct.mp hmem, hmem]
      · simp [holdsAfter, hword, hu, mem_distinct]
    · rw [if_neg fun h => hmem (List.contains_iff_mem.mp h), words_intercalate_append hdistinct]
      simp [holdsAfter, mem_distinct]

end ClassList
end GraphFolding
