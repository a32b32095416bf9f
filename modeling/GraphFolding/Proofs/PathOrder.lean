/-
The nesting of cluster paths as an order.

One path lies below another if it begins with it and goes on with the separator, or in any
way at all when whole segments do not count.

* `isBelow_iff` — nesting as a statement about beginnings of lists;
* `isBelow_irrefl`, `isBelow_asymm`, `isBelow_trans` — nesting is a strict order;
* `isBelow_chain` — the paths above one path are nested in each other, if no part of the
  separator is both a beginning and an end of it (`BorderFree`);
* `borderFree_of_chained` — and only then, if whole segments count;
* `properNesting` — what of this holds for which separators.
-/
import GraphFolding.Settings.Basic
namespace GraphFolding.ClusterPath

variable {nesting : Nesting} {separator : String}

/-- What must stand after a path in the paths below it. -/
def seam (nesting : Nesting) (separator : String) : List Char :=
  match nesting with
  | .bySegment => separator.toList
  | .byText => []

/-- Whether nothing but the whole list, and the empty one, is both a beginning and an end of
a list. -/
def BorderFree (s : List Char) : Prop := ∀ b, b <+: s → b <:+ s → b = [] ∨ b = s

theorem borderFree_nil : BorderFree [] := fun _ h _ => .inl (List.prefix_nil.mp h)

/-- A single character has no border. -/
theorem borderFree_singleton (c : Char) : BorderFree [c] := by
  intro b h _
  rcases List.prefix_cons_iff.mp h with rfl | ⟨t, rfl, ht⟩
  · exact .inl rfl
  · rw [List.prefix_nil.mp ht]
    exact .inr rfl

/-- Plain text, and segments parted by a single character, have no borders. -/
theorem borderFree_seam (h : nesting = .byText ∨ nesting = .bySegment ∧ separator.length = 1) :
    BorderFree (seam nesting separator) := by
  rcases h with rfl | ⟨rfl, hlength⟩
  · exact borderFree_nil
  · obtain ⟨c, hc⟩ := List.length_eq_one_iff.mp (String.length_toList ▸ hlength)
    rw [seam, hc]
    exact borderFree_singleton c

theorem rest?_eq_some {start path rest : List Char} :
    rest? start path = some rest ↔ start ++ rest = path := by
  unfold rest?
  constructor
  · intro h
    split at h
    · rename_i hstart
      rw [← Option.some_inj.mp h]
      exact List.prefix_iff_eq_append.mp (List.isPrefixOf_iff_prefix.mp hstart)
    · simp at h
  · rintro rfl
    rw [if_pos (List.isPrefixOf_iff_prefix.mpr (List.prefix_append ..)), List.drop_left]

theorem isBelow_iff {candidate ancestor : String} :
    isBelow nesting separator candidate ancestor = true ↔ candidate ≠ ancestor ∧
      (nesting = .bySegment → separator ≠ "") ∧
      ancestor.toList ++ seam nesting separator <+: candidate.toList := by
  unfold isBelow
  by_cases heq : candidate = ancestor
  · simp [heq]
  rw [if_neg heq]
  rcases hrest : rest? ancestor.toList candidate.toList with _ | rest
  · -- Then the candidate does not even begin with the ancestor.
    refine ⟨fun h => by simp at h, fun ⟨_, _, tail, htail⟩ => ?_⟩
    rw [List.append_assoc] at htail
    rw [rest?_eq_some.mpr htail] at hrest
    simp at hrest
  · rw [← rest?_eq_some.mp hrest, List.prefix_append_right_inj]
    cases nesting <;> simp [seam, heq]

theorem isBelow_irrefl (path : String) : isBelow nesting separator path path = false := by
  simp [isBelow]

/-- No two paths lie below each other. -/
theorem isBelow_asymm {a b : String} (h : isBelow nesting separator a b = true) :
    isBelow nesting separator b a = false := by
  rw [Bool.eq_false_iff]
  intro h'
  obtain ⟨hne, -, hb⟩ := isBelow_iff.mp h
  obtain ⟨-, -, ha⟩ := isBelow_iff.mp h'
  have hba : b.toList <+: a.toList := (List.prefix_append ..).trans hb
  have hab : a.toList <+: b.toList := (List.prefix_append ..).trans ha
  exact hne (String.toList_inj.mp (hab.eq_of_length_le hba.length_le))

theorem isBelow_trans {a b c : String} (h : isBelow nesting separator a b = true)
    (h' : isBelow nesting separator b c = true) : isBelow nesting separator a c = true := by
  have hne : a ≠ c := by
    rintro rfl
    rw [isBelow_asymm h] at h'
    exact Bool.false_ne_true h'
  obtain ⟨-, hseparator, hab⟩ := isBelow_iff.mp h
  obtain ⟨-, -, hbc⟩ := isBelow_iff.mp h'
  exact isBelow_iff.mpr ⟨hne, hseparator, (hbc.trans (List.prefix_append ..)).trans hab⟩

/-- Two beginnings of a list that go on with the same border-free list: the longer one
begins with the shorter one and that list. -/
theorem prefix_of_seams {s a b c : List Char} (hs : BorderFree s) (ha : a ++ s <+: c)
    (hb : b ++ s <+: c) (hlt : a.length < b.length) : a ++ s <+: b := by
  have hab : a <+: b := List.prefix_of_prefix_length_le ((List.prefix_append ..).trans ha)
    ((List.prefix_append ..).trans hb) (Nat.le_of_lt hlt)
  obtain ⟨m, rfl⟩ := hab
  rw [List.length_append] at hlt
  rw [List.prefix_append_right_inj]
  -- Both `s` and `m ++ s` stand after `a`.
  rw [List.append_assoc] at hb
  have hms : s <+: m ++ s :=
    (List.prefix_append_right_inj a).mp (List.prefix_of_prefix_length_le ha hb (by simp))
  rcases List.prefix_or_prefix_of_prefix hms (List.prefix_append m s) with h | ⟨t, rfl⟩
  · exact h
  · -- What is left of `s` after `m` begins and ends it, so that `m` or it is empty.
    have ht : t <+: m ++ t := (List.prefix_append_right_inj m).mp hms
    rcases hs t ht (List.suffix_append m t) with rfl | h
    · simp
    · rw [List.self_eq_append_left.mp h] at hlt
      exact absurd hlt (by simp)

/-- Two different paths above one path are nested in each other. -/
theorem isBelow_chain (hs : BorderFree (seam nesting separator)) {a b c : String}
    (ha : isBelow nesting separator c a = true) (hb : isBelow nesting separator c b = true)
    (hne : a ≠ b) :
    isBelow nesting separator a b = true ∨ isBelow nesting separator b a = true := by
  obtain ⟨-, hseparator, ha⟩ := isBelow_iff.mp ha
  obtain ⟨-, -, hb⟩ := isBelow_iff.mp hb
  rcases Nat.lt_trichotomy a.toList.length b.toList.length with h | h | h
  · exact .inr (isBelow_iff.mpr ⟨hne.symm, hseparator, prefix_of_seams hs ha hb h⟩)
  · -- Beginnings of one length are the same path.
    have hab : a.toList <+: b.toList := List.prefix_of_prefix_length_le
      ((List.prefix_append ..).trans ha) ((List.prefix_append ..).trans hb) (Nat.le_of_eq h)
    exact absurd (String.toList_inj.mp (hab.eq_of_length h)) hne
  · exact .inl (isBelow_iff.mpr ⟨hne, hseparator, prefix_of_seams hs hb ha h⟩)

/-! ### Which separators nest properly -/

/-- Nesting is a strict order. -/
structure IsStrict (nesting : Nesting) (separator : String) : Prop where
  irrefl (path : String) : isBelow nesting separator path path = false
  asymm {a b : String} : isBelow nesting separator a b = true →
    isBelow nesting separator b a = false
  trans {a b c : String} : isBelow nesting separator a b = true →
    isBelow nesting separator b c = true → isBelow nesting separator a c = true

/-- Of any two paths above one path, one is above the other. -/
def Chained (nesting : Nesting) (separator : String) : Prop :=
  ∀ a b c : String, isBelow nesting separator c a = true → isBelow nesting separator c b = true →
    a ≠ b → isBelow nesting separator a b = true ∨ isBelow nesting separator b a = true

/-- What is below a path by segments is below it by text. -/
theorem isBelow_byText_of_bySegment {a b : String}
    (h : isBelow .bySegment separator a b = true) : isBelow .byText separator a b = true := by
  obtain ⟨hne, -, hb⟩ := isBelow_iff.mp h
  refine isBelow_iff.mpr ⟨hne, nofun, ?_⟩
  rw [seam, List.append_nil]
  exact (List.prefix_append ..).trans hb

theorem chained_of_borderFree (hs : BorderFree (seam nesting separator)) :
    Chained nesting separator := fun _ _ _ => isBelow_chain hs

/-- A border of the separator parts the paths above one path: if the separator is `z ++ b` and
`b ++ v`, both the empty path and `z` are above `z ++ b ++ v`, and neither is above the other. -/
theorem not_chained_of_border {z b v : List Char} (hz : z ++ b = separator.toList)
    (hv : b ++ v = separator.toList) (hb : b ≠ []) (hne : b ≠ separator.toList) :
    ¬Chained .bySegment separator := by
  intro h
  have hz' : z ≠ [] := by
    rintro rfl
    exact hne hz
  have hseparator : separator ≠ "" := by
    rintro rfl
    exact hb (List.append_eq_nil_iff.mp hv).1
  have htext : "" ≠ String.ofList z := by
    intro he
    rw [eq_comm, ← String.toList_inj, String.toList_ofList] at he
    exact hz' he
  have hempty : isBelow .bySegment separator (String.ofList (z ++ separator.toList)) "" = true := by
    refine isBelow_iff.mpr ⟨fun he => ?_, fun _ => hseparator, v, ?_⟩
    · rw [← String.toList_inj, String.toList_ofList] at he
      exact hz' (List.append_eq_nil_iff.mp he).1
    · -- The separator, read as `z ++ b`, stands at the very beginning.
      simp only [String.toList_ofList, seam]
      calc "".toList ++ separator.toList ++ v = z ++ b ++ v := by rw [hz]; rfl
        _ = z ++ separator.toList := by rw [List.append_assoc, hv]
  have hbegin : isBelow .bySegment separator (String.ofList (z ++ separator.toList))
      (String.ofList z) = true := by
    refine isBelow_iff.mpr ⟨fun he => hseparator ?_, fun _ => hseparator, ?_⟩
    · rw [← String.toList_inj, String.toList_ofList, String.toList_ofList] at he
      exact String.toList_inj.mp (List.append_right_eq_self.mp he)
    · exact ⟨[], by simp [seam]⟩
  rcases h _ _ _ hempty hbegin htext with hbelow | hbelow
  · exact htext (String.toList_inj.mp (List.prefix_nil.mp
      ((List.prefix_append ..).trans (isBelow_iff.mp hbelow).2.2)).symm)
  · -- The separator would have to fit into `z`, and is longer by `b`.
    have hlength := (isBelow_iff.mp hbelow).2.2.length_le
    simp only [String.toList_ofList, seam, ← hz, List.length_append] at hlength
    have hpos := List.length_pos_iff.mpr hb
    omega

theorem borderFree_of_chained (h : Chained .bySegment separator) :
    BorderFree separator.toList := by
  rintro b ⟨v, hv⟩ ⟨z, hz⟩
  by_cases hb : b = []
  · exact .inl hb
  by_cases hne : b = separator.toList
  · exact .inr hne
  exact absurd h (not_chained_of_border hz hv hb hne)

/-- Nesting is a strict order for every separator, and nesting by segments is part of nesting by
text.  By text the paths above one path always form a chain; by segments they do exactly if the
separator has no border, as one of a single character. -/
theorem properNesting (separator : String) :
    (∀ nesting, IsStrict nesting separator) ∧
    (∀ a b, isBelow .bySegment separator a b = true → isBelow .byText separator a b = true) ∧
    Chained .byText separator ∧
    (Chained .bySegment separator ↔ BorderFree separator.toList) ∧
    (separator.length = 1 → Chained .bySegment separator) :=
  ⟨fun _ => ⟨isBelow_irrefl, isBelow_asymm, isBelow_trans⟩,
    fun _ _ => isBelow_byText_of_bySegment,
    chained_of_borderFree borderFree_nil,
    ⟨borderFree_of_chained, fun hs => chained_of_borderFree hs⟩,
    fun hlength => chained_of_borderFree (borderFree_seam (.inr ⟨rfl, hlength⟩))⟩

/-- `::` has the border `:`, so that `a` and `a:` are both above `a:::b`. -/
example : isBelow .bySegment "::" "a:::b" "a" = true ∧ isBelow .bySegment "::" "a:::b" "a:" = true ∧
    isBelow .bySegment "::" "a:" "a" = false := by decide

end GraphFolding.ClusterPath
