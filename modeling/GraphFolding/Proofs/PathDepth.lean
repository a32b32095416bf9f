/-
Depth and last segment of cluster paths, against their nesting.

The depth counts separators from the left, the last segment is cut off from the right, and
nesting compares beginnings.  The three see different occurrences of a separator that overlaps
itself, such as `::` in `a:::b`:

* `Packs` — a number of occurrences that do not overlap, wherever they stand;
* `packs_occurrences`, `Packs.le_occurrences` — the occurrences counted from the left are such
  ones, and no choice finds more;
* `afterLast_eq_none_iff`, `afterLast_eq_some` — what follows the last occurrence;
* `occurrences_append`, `afterLast_append` — a separator without a border is seen wherever it
  stands, by both;
* `exists_short_border` — and one with a border is not;
* `MeasuresNesting`, `measuresNesting` — what depth and last segment say about a path.
-/
import GraphFolding.Proofs.PathOrder
import Mathlib.Data.List.Infix
namespace GraphFolding.ClusterPath

/-! ### Occurrences that do not overlap -/

/-- A number of occurrences of `s` in a list, none of which overlaps another one. -/
inductive Packs (s : List Char) : Nat → List Char → Prop
  | none (l : List Char) : Packs s 0 l
  | next (before : List Char) {n : Nat} {after : List Char} (h : Packs s n after) :
      Packs s (n + 1) (before ++ s ++ after)

namespace Packs

variable {s l l' : List Char} {m n : Nat}

theorem append_left (h : Packs s n l) (before : List Char) : Packs s n (before ++ l) := by
  cases h with
  | none => exact .none _
  | next start h =>
    rw [← List.append_assoc, ← List.append_assoc]
    exact .next (before ++ start) h

theorem append (h : Packs s m l) (h' : Packs s n l') : Packs s (m + n) (l ++ l') := by
  induction h with
  | none l =>
    rw [Nat.zero_add]
    exact h'.append_left l
  | next before _ ih =>
    rw [Nat.succ_add, List.append_assoc]
    exact .next before ih

theorem length_le (h : Packs s (n + 1) l) : s.length ≤ l.length := by
  cases h with
  | next before h =>
    simp only [List.length_append]
    omega

/-- Without as many characters at the front as an occurrence has, no more than one occurrence is
lost. -/
theorem drop (h : Packs s (n + 1) l) {k : Nat} (hk : k ≤ s.length) : Packs s n (l.drop k) := by
  cases h with
  | next before h =>
    have hle : k ≤ (before ++ s).length := by
      rw [List.length_append]
      omega
    rw [List.drop_append_of_le_length hle]
    exact h.append_left _

/-- Without a character at which no occurrence begins, none is lost. -/
theorem tail {c : Char} (h : Packs s n (c :: l)) (hbegins : ¬s <+: c :: l) : Packs s n l := by
  generalize hwhole : c :: l = whole at h
  cases h with
  | none => exact .none l
  | next before h =>
    rcases before with _ | ⟨x, before⟩
    · rw [hwhole, List.nil_append] at hbegins
      exact absurd (List.prefix_append ..) hbegins
    · rw [(List.cons.inj hwhole).2]
      exact .next before h

end Packs

/-- A list holds an occurrence if and only if it begins or goes on with one somewhere. -/
theorem packs_one_iff {s l : List Char} : Packs s 1 l ↔ s <:+: l := by
  constructor
  · intro h
    cases h with
    | next before h => exact ⟨before, _, rfl⟩
  · rintro ⟨before, after, rfl⟩
    exact .next before (.none after)

/-! ### Counting from the left -/

section Occurrences

variable {s : Char} {more : List Char}

theorem occurrences_of_begins (after : List Char) :
    occurrences s more (s :: more ++ after) = occurrences s more after + 1 := by
  have hbegins : (s :: more).isPrefixOf (s :: (more ++ after)) = true :=
    List.isPrefixOf_iff_prefix.mpr (List.prefix_append (s :: more) after)
  rw [List.cons_append, occurrences, if_pos hbegins, List.drop_left]

theorem occurrences_of_not_begins {c : Char} {rest : List Char} (h : ¬s :: more <+: c :: rest) :
    occurrences s more (c :: rest) = occurrences s more rest := by
  rw [occurrences, if_neg (mt List.isPrefixOf_iff_prefix.mp h)]

variable (s more) in
/-- The cases of counting: nothing is left, a separator comes next, or none begins here. -/
theorem occurrences_induction {motive : List Char → Prop} (nil : motive [])
    (here : ∀ after, motive after → motive (s :: more ++ after))
    (later : ∀ c rest, ¬s :: more <+: c :: rest → motive rest → motive (c :: rest))
    (l : List Char) : motive l := by
  induction hn : l.length using Nat.strongRecOn generalizing l with
  | _ n ih =>
    rcases l with _ | ⟨c, rest⟩
    · exact nil
    by_cases h : s :: more <+: c :: rest
    · obtain ⟨after, hafter⟩ := h
      rw [← hafter] at hn ⊢
      refine here after (ih after.length ?_ after rfl)
      rw [← hn, List.length_append, List.length_cons]
      omega
    · exact later c rest h (ih rest.length (by rw [← hn, List.length_cons]; omega) rest rfl)

/-- The occurrences that are counted do not overlap. -/
theorem packs_occurrences (l : List Char) : Packs (s :: more) (occurrences s more l) l := by
  induction l using occurrences_induction s more with
  | nil =>
    rw [occurrences]
    exact .none []
  | here after ih =>
    rw [occurrences_of_begins]
    exact .next [] ih
  | later c rest h ih =>
    rw [occurrences_of_not_begins h]
    exact ih.append_left [c]

/-- No choice finds more occurrences than are counted from the left. -/
theorem Packs.le_occurrences {n : Nat} {l : List Char} (h : Packs (s :: more) n l) :
    n ≤ occurrences s more l := by
  induction l using occurrences_induction s more generalizing n with
  | nil =>
    rcases n with _ | n
    · exact Nat.zero_le _
    · exact absurd h.length_le (by simp)
  | here after ih =>
    rcases n with _ | n
    · exact Nat.zero_le _
    -- Whichever occurrence is chosen first, the one at the very beginning ends no later.
    have hafter := h.drop (Nat.le_refl _)
    rw [List.drop_left] at hafter
    rw [occurrences_of_begins]
    exact Nat.succ_le_succ (ih hafter)
  | later c rest hbegins ih =>
    rw [occurrences_of_not_begins hbegins]
    exact ih (h.tail hbegins)

theorem occurrences_eq_zero_iff {l : List Char} :
    occurrences s more l = 0 ↔ ¬s :: more <:+: l := by
  constructor
  · intro h hholds
    have hle := (packs_one_iff.mpr hholds).le_occurrences
    omega
  · intro h
    by_contra hne
    obtain ⟨n, hn⟩ := Nat.exists_eq_succ_of_ne_zero hne
    have hpacks : Packs (s :: more) (occurrences s more l) l := packs_occurrences l
    rw [hn] at hpacks
    cases hpacks with
    | next before _ => exact h ⟨before, _, rfl⟩

/-- Occurrences on both sides of a separator do not overlap it, or each other. -/
theorem add_le_occurrences (before after : List Char) :
    occurrences s more before + 1 + occurrences s more after ≤
      occurrences s more (before ++ (s :: more) ++ after) := by
  -- Counted from the left they need not be the same ones, but then there are no fewer.
  have hseparator : Packs (s :: more) (occurrences s more after + 1) (s :: more ++ after) :=
    .next [] (packs_occurrences after)
  have hall := ((packs_occurrences before).append hseparator).le_occurrences
  rw [List.append_assoc]
  omega

end Occurrences

/-! ### Cutting off from the right -/

section AfterLast

variable {s : List Char}

theorem afterLast_eq_none_iff (hs : s ≠ []) (l : List Char) :
    afterLast s l = none ↔ ¬s <:+: l := by
  induction l with
  | nil => simp [afterLast, hs]
  | cons c rest ih =>
    rw [afterLast, List.infix_cons_iff, not_or]
    rcases hrest : afterLast s rest with _ | tail
    · have hnone := ih.mp hrest
      by_cases hbegins : s <+: c :: rest
      · simp [hbegins, List.isPrefixOf_iff_prefix]
      · simp [hbegins, hnone, List.isPrefixOf_iff_prefix]
    · have hholds : s <:+: rest := by
        by_contra hno
        rw [ih.mpr hno] at hrest
        simp at hrest
      simp [hholds]

/-- What is cut off follows an occurrence, and holds none. -/
theorem afterLast_eq_some (hs : s ≠ []) {l tail : List Char} (h : afterLast s l = some tail) :
    (∃ before, before ++ s ++ tail = l) ∧ ¬s <:+: tail := by
  induction l with
  | nil => simp [afterLast] at h
  | cons c rest ih =>
    rw [afterLast] at h
    rcases hrest : afterLast s rest with _ | found
    · rw [hrest] at h
      by_cases hbegins : s <+: c :: rest
      · -- The last occurrence stands at the very beginning.
        rw [if_pos (List.isPrefixOf_iff_prefix.mpr hbegins), Option.some_inj] at h
        obtain ⟨after, hafter⟩ := hbegins
        rw [← hafter, List.drop_left] at h
        subst h
        refine ⟨⟨[], hafter⟩, fun hholds => ?_⟩
        obtain ⟨x, more, rfl⟩ := List.exists_cons_of_ne_nil hs
        have hsuffix : after <:+ rest := ⟨more, (List.cons.inj hafter).2⟩
        exact (afterLast_eq_none_iff hs rest).mp hrest (hholds.trans hsuffix.isInfix)
      · rw [if_neg (mt List.isPrefixOf_iff_prefix.mp hbegins)] at h
        simp at h
    · rw [hrest] at h
      obtain rfl : found = tail := Option.some_inj.mp h
      obtain ⟨⟨before, hbefore⟩, hno⟩ := ih hrest
      exact ⟨⟨c :: before, by rw [← hbefore]; rfl⟩, hno⟩

theorem afterLast_append_of_eq_some {l tail : List Char} (h : afterLast s l = some tail)
    (before : List Char) : afterLast s (before ++ l) = some tail := by
  induction before with
  | nil => exact h
  | cons c before ih => rw [List.cons_append, afterLast, ih]

/-- Nothing follows a separator at the end. -/
theorem afterLast_self (hs : s ≠ []) : afterLast s s = some [] := by
  rcases h : afterLast s s with _ | tail
  · exact absurd (List.infix_refl s) ((afterLast_eq_none_iff hs s).mp h)
  · obtain ⟨⟨before, hbefore⟩, -⟩ := afterLast_eq_some hs h
    have hlength := congrArg List.length hbefore
    simp only [List.length_append] at hlength
    rw [List.eq_nil_of_length_eq_zero (by omega : tail.length = 0)]

end AfterLast

/-! ### Separators without a border -/

instance decidableBorderFree (s : List Char) : Decidable (BorderFree s) :=
  decidable_of_iff (∀ b ∈ s.inits, b <:+ s → b = [] ∨ b = s) (by simp [BorderFree])

/-- A separator that stands before a border-free one does not reach into it. -/
theorem prefix_append_iff {s before after : List Char} (hs : BorderFree s) (hbefore : before ≠ []) :
    s <+: before ++ s ++ after ↔ s <+: before := by
  rw [List.append_assoc]
  constructor
  · intro h
    rcases List.prefix_or_prefix_of_prefix h (List.prefix_append before (s ++ after)) with h' | h'
    · exact h'
    -- Otherwise what is left of `s` after `before` would be a border of it.
    obtain ⟨t, ht⟩ := h'
    have hfollows : t <+: s ++ after := by
      rw [← List.prefix_append_right_inj before, ht]
      exact h
    have htail : t <+: s := List.prefix_of_prefix_length_le hfollows (List.prefix_append s after)
      (List.IsSuffix.length_le ⟨before, ht⟩)
    rcases hs t htail ⟨before, ht⟩ with rfl | rfl
    · rw [← ht, List.append_nil]
    · exact absurd (List.append_left_eq_self.mp ht) hbefore
  · intro h
    exact h.trans (List.prefix_append ..)

/-- A border-free separator is counted wherever it stands, besides those on both sides of it. -/
theorem occurrences_append {s : Char} {more : List Char} (hs : BorderFree (s :: more))
    (before after : List Char) : occurrences s more (before ++ (s :: more) ++ after) =
      occurrences s more before + 1 + occurrences s more after := by
  induction before using occurrences_induction s more with
  | nil =>
    rw [List.nil_append, occurrences_of_begins, occurrences]
    omega
  | here before ih =>
    rw [List.append_assoc, List.append_assoc, occurrences_of_begins, occurrences_of_begins,
      ← List.append_assoc, ih]
    omega
  | later c before h ih =>
    have hno : ¬s :: more <+: c :: before ++ (s :: more) ++ after :=
      mt (prefix_append_iff hs (List.cons_ne_nil c before)).mp h
    rw [occurrences_of_not_begins h, ← ih]
    exact occurrences_of_not_begins hno

/-- Part of a border-free separator does not become a separator by what follows it. -/
theorem afterLast_suffix_append {s : List Char} (hs : BorderFree s) (after : List Char) :
    ∀ {t : List Char}, t <:+ s → t ≠ s → afterLast s (t ++ after) = afterLast s after := by
  intro t
  induction t with
  | nil => exact fun _ _ => rfl
  | cons c t ih =>
    intro hsuffix hne
    have hlt : (c :: t).length < s.length := by
      refine Nat.lt_of_le_of_ne hsuffix.length_le fun hlength => hne ?_
      exact hsuffix.eq_of_length hlength
    have htail : t <:+ s := (List.suffix_cons c t).trans hsuffix
    have hshort : t ≠ s := by
      rintro rfl
      rw [List.length_cons] at hlt
      omega
    have hno : ¬s <+: c :: (t ++ after) := by
      intro h
      have hbegins : c :: t <+: s := List.prefix_of_prefix_length_le
        (List.prefix_append (c :: t) after) h (Nat.le_of_lt hlt)
      rcases hs (c :: t) hbegins hsuffix with h' | h'
      · simp at h'
      · exact hne h'
    rw [List.cons_append, afterLast, ih htail hshort,
      if_neg (mt List.isPrefixOf_iff_prefix.mp hno)]
    rcases afterLast s after with _ | tail
    · rfl
    · rfl

/-- What follows the last separator does not depend on what stands before a border-free one. -/
theorem afterLast_append {s : List Char} (hs : BorderFree s) (hne : s ≠ [])
    (before after : List Char) :
    afterLast s (before ++ s ++ after) = some ((afterLast s after).getD after) := by
  obtain ⟨x, more, rfl⟩ := List.exists_cons_of_ne_nil hne
  have hmore : more ≠ x :: more := fun h => by
    have := congrArg List.length h
    simp at this
  have hrest := afterLast_suffix_append hs after (List.suffix_cons x more) hmore
  rw [List.append_assoc]
  refine afterLast_append_of_eq_some ?_ before
  rw [List.cons_append, afterLast, hrest]
  rcases afterLast (x :: more) after with _ | tail
  · have hbegins := List.isPrefixOf_iff_prefix.mpr (List.prefix_append (x :: more) after)
    rw [List.cons_append] at hbegins
    simp only [hbegins, if_true, Option.getD_none]
    rw [← List.cons_append, List.drop_left]
  · rfl

/-- Part of a list, neither nothing nor all of it, that both begins and ends it. -/
structure IsBorder (s b : List Char) : Prop where
  begins : b <+: s
  ends : b <:+ s
  ne_nil : b ≠ []
  ne_self : b ≠ s

theorem exists_isBorder {s : List Char} (h : ¬BorderFree s) : ∃ b, IsBorder s b := by
  simp only [BorderFree, not_forall, not_or] at h
  obtain ⟨b, hbegins, hsuffix, hne, hself⟩ := h
  exact ⟨b, hbegins, hsuffix, hne, hself⟩

/-- A border of more than half the length overlaps itself, in a shorter border. -/
theorem IsBorder.exists_shorter {s b : List Char} (h : IsBorder s b)
    (hlong : s.length < 2 * b.length) : ∃ t, IsBorder s t ∧ t.length < b.length := by
  obtain ⟨v, hv⟩ := h.begins
  obtain ⟨z, hz⟩ := h.ends
  have hlength := congrArg List.length hz
  rw [List.length_append] at hlength
  have hbegins : z <+: b := List.prefix_of_prefix_length_le ⟨b, hz⟩ ⟨v, hv⟩ (by omega)
  obtain ⟨t, rfl⟩ := hbegins
  have hpos : 0 < z.length := by
    refine List.length_pos_iff.mpr ?_
    rintro rfl
    exact h.ne_self hz
  rw [List.length_append] at hlength hlong
  -- The list is `z ++ t ++ v` and also `z ++ z ++ t`.
  have hsame : z ++ (t ++ v) = z ++ (z ++ t) := by rw [hz, ← hv, List.append_assoc]
  have hoverlap : t ++ v = z ++ t := List.append_cancel_left hsame
  have htv : t <+: z ++ t := ⟨v, hoverlap⟩
  refine ⟨t, ⟨htv.trans h.begins, (List.suffix_append z t).trans h.ends, ?_, ?_⟩, ?_⟩
  · rintro rfl
    rw [List.length_nil] at hlength hlong
    omega
  · rintro rfl
    omega
  · rw [List.length_append]
    omega

/-- A list with a border has one of at most half its length. -/
theorem exists_short_border {s : List Char} (h : ¬BorderFree s) :
    ∃ b, IsBorder s b ∧ 2 * b.length ≤ s.length := by
  -- A border that is too long has a shorter one in it.
  have hshorten : ∀ n b, b.length = n → IsBorder s b →
      ∃ b, IsBorder s b ∧ 2 * b.length ≤ s.length := by
    intro n
    induction n using Nat.strongRecOn with
    | _ n ih =>
      rintro b rfl hb
      by_cases hshort : 2 * b.length ≤ s.length
      · exact ⟨b, hb, hshort⟩
      · obtain ⟨t, ht, hlt⟩ := hb.exists_shorter (Nat.lt_of_not_le hshort)
        exact ih t.length hlt t rfl ht
  obtain ⟨b, hb⟩ := exists_isBorder h
  exact hshorten b.length b rfl hb

/-! ### Depth and last segment of paths -/

section Paths

variable {separator : String} (hne : separator ≠ "")
include hne

theorem toList_separator_ne_nil : separator.toList ≠ [] := mt String.toList_eq_nil_iff.mp hne

theorem toList_lastSegment (path : String) : (lastSegment path separator).toList =
    (afterLast separator.toList path.toList).getD path.toList := by
  have hempty : separator.isEmpty = false := by simpa using hne
  rw [lastSegment, hempty, if_neg Bool.false_ne_true]
  rcases afterLast separator.toList path.toList with _ | tail
  · rfl
  · exact String.toList_ofList

/-- The depth is the largest number of separators in a path that do not overlap. -/
theorem isGreatest_depth (path : String) : Packs separator.toList (depth path separator) path.toList ∧
    ∀ n, Packs separator.toList n path.toList → n ≤ depth path separator := by
  obtain ⟨s, more, h⟩ := List.exists_cons_of_ne_nil (toList_separator_ne_nil hne)
  simp only [depth, h]
  exact ⟨packs_occurrences path.toList, fun n hn => hn.le_occurrences⟩

theorem depth_eq_zero_iff (path : String) :
    depth path separator = 0 ↔ ¬separator.toList <:+: path.toList := by
  obtain ⟨s, more, h⟩ := List.exists_cons_of_ne_nil (toList_separator_ne_nil hne)
  simp only [depth, h]
  exact occurrences_eq_zero_iff

theorem lastSegment_of_depth_eq_zero {path : String} (h : depth path separator = 0) :
    lastSegment path separator = path := by
  have hnone := (afterLast_eq_none_iff (toList_separator_ne_nil hne) path.toList).mpr
    ((depth_eq_zero_iff hne path).mp h)
  rw [← String.toList_inj, toList_lastSegment hne, hnone, Option.getD_none]

/-- A path with a separator ends with one and its last segment. -/
theorem exists_append_lastSegment {path : String} (h : depth path separator ≠ 0) :
    ∃ start, start ++ separator ++ lastSegment path separator = path := by
  have hs := toList_separator_ne_nil hne
  rcases hlast : afterLast separator.toList path.toList with _ | tail
  · exact absurd ((depth_eq_zero_iff hne path).mpr ((afterLast_eq_none_iff hs _).mp hlast)) h
  · obtain ⟨⟨before, hbefore⟩, -⟩ := afterLast_eq_some hs hlast
    refine ⟨String.ofList before, ?_⟩
    rw [← String.toList_inj, String.toList_append, String.toList_append, String.toList_ofList,
      toList_lastSegment hne, hlast, Option.getD_some, hbefore]

theorem lastSegment_eq_self_iff (path : String) :
    lastSegment path separator = path ↔ depth path separator = 0 := by
  refine ⟨fun h => ?_, lastSegment_of_depth_eq_zero hne⟩
  by_contra hdepth
  -- The separator before the last segment makes the path longer than it.
  obtain ⟨start, hstart⟩ := exists_append_lastSegment hne hdepth
  have hlength := congrArg (fun p : String => p.toList.length) hstart
  simp only [h, String.toList_append, List.length_append] at hlength
  have hpos := List.length_pos_iff.mpr (toList_separator_ne_nil hne)
  omega

theorem not_infix_lastSegment (path : String) :
    ¬separator.toList <:+: (lastSegment path separator).toList := by
  have hs := toList_separator_ne_nil hne
  rw [toList_lastSegment hne]
  rcases hlast : afterLast separator.toList path.toList with _ | tail
  · exact (afterLast_eq_none_iff hs path.toList).mp hlast
  · exact (afterLast_eq_some hs hlast).2

theorem add_le_depth (start path : String) : depth start separator + 1 + depth path separator ≤
    depth (start ++ separator ++ path) separator := by
  obtain ⟨s, more, h⟩ := List.exists_cons_of_ne_nil (toList_separator_ne_nil hne)
  simp only [depth, h, String.toList_append]
  exact add_le_occurrences start.toList path.toList

/-- What is below a path by segments is deeper. -/
theorem depth_lt_of_isBelow {candidate ancestor : String}
    (h : isBelow .bySegment separator candidate ancestor = true) :
    depth ancestor separator + 1 ≤ depth candidate separator := by
  obtain ⟨-, -, tail, htail⟩ := isBelow_iff.mp h
  have hcandidate : candidate = ancestor ++ separator ++ String.ofList tail := by
    rw [← String.toList_inj, ← htail]
    simp [seam]
  rw [hcandidate]
  exact Nat.le_trans (Nat.le_add_right ..) (add_le_depth hne ancestor (String.ofList tail))

theorem depth_append (hs : BorderFree separator.toList) (start path : String) :
    depth (start ++ separator ++ path) separator =
      depth start separator + 1 + depth path separator := by
  obtain ⟨s, more, h⟩ := List.exists_cons_of_ne_nil (toList_separator_ne_nil hne)
  rw [h] at hs
  simp only [depth, h, String.toList_append]
  exact occurrences_append hs start.toList path.toList

theorem lastSegment_append (hs : BorderFree separator.toList) (start path : String) :
    lastSegment (start ++ separator ++ path) separator = lastSegment path separator := by
  rw [← String.toList_inj, toList_lastSegment hne, toList_lastSegment hne, String.toList_append,
    String.toList_append, afterLast_append hs (toList_separator_ne_nil hne), Option.getD_some]

/-- With the separator `z ++ b`, which is also `b ++ v`, at the end of `z ++ b ++ v` no more
follows the last separator; it is the overlap `b` that is seen in `b ++ v` and again behind `z`. -/
theorem borderFree_of_lastSegment_append (h : ∀ start path,
    lastSegment (start ++ separator ++ path) separator = lastSegment path separator) :
    BorderFree separator.toList := by
  rintro b ⟨v, hv⟩ ⟨z, hz⟩
  have hs := toList_separator_ne_nil hne
  by_cases hb : b = []
  · exact .inl hb
  right
  have hshort : v.length < separator.toList.length := by
    rw [← hv, List.length_append]
    have hpos := List.length_pos_iff.mpr hb
    omega
  have hwhole : lastSegment (String.ofList v) separator = String.ofList v := by
    refine lastSegment_of_depth_eq_zero hne ((depth_eq_zero_iff hne _).mpr fun hholds => ?_)
    have hle := hholds.length_le
    rw [String.toList_ofList] at hle
    omega
  have hend : separator.toList ++ v = z ++ separator.toList :=
    calc separator.toList ++ v = z ++ b ++ v := by rw [hz]
      _ = z ++ separator.toList := by rw [List.append_assoc, hv]
  have hempty : (lastSegment ("" ++ separator ++ String.ofList v) separator).toList = [] := by
    rw [toList_lastSegment hne, String.toList_append, String.toList_append, String.toList_empty,
      List.nil_append, String.toList_ofList, hend,
      afterLast_append_of_eq_some (afterLast_self hs), Option.getD_some]
  rw [h, hwhole, String.toList_ofList] at hempty
  rw [← hv, hempty, List.append_nil]

/-- A border `b` of at most half the length makes the separator `b ++ w ++ b`, which stands twice
in the text that begins with `b ++ w`, then the separator, and then `w ++ b`. -/
theorem borderFree_of_depth_append (h : ∀ start path,
    depth (start ++ separator ++ path) separator =
      depth start separator + 1 + depth path separator) : BorderFree separator.toList := by
  by_contra hborder
  obtain ⟨b, hb, hshort⟩ := exists_short_border hborder
  obtain ⟨v, hv⟩ := hb.begins
  have hlength := congrArg List.length hv
  rw [List.length_append] at hlength
  obtain ⟨w, rfl⟩ : b <:+ v := List.suffix_of_suffix_length_le hb.ends ⟨b, hv⟩ (by omega)
  have hpos := List.length_pos_iff.mpr hb.ne_nil
  have hzero : ∀ l : List Char, l.length < separator.toList.length →
      depth (String.ofList l) separator = 0 := by
    refine fun l hl => (depth_eq_zero_iff hne _).mpr fun hholds => ?_
    have hle := hholds.length_le
    rw [String.toList_ofList] at hle
    omega
  have htwice : Packs separator.toList 2
      (String.ofList (b ++ w) ++ separator ++ String.ofList (w ++ b)).toList := by
    have htext : (String.ofList (b ++ w) ++ separator ++ String.ofList (w ++ b)).toList =
        [] ++ separator.toList ++ (w ++ separator.toList ++ []) := by
      simp [← hv]
    rw [htext]
    exact .next [] (.next w (.none []))
  have hle := (isGreatest_depth hne _).2 2 htwice
  rw [List.length_append] at hlength
  rw [h, hzero _ (by rw [List.length_append]; omega),
    hzero _ (by rw [List.length_append]; omega)] at hle
  omega

end Paths

/-- What depth and last segment say about paths, whatever the separator is. -/
structure MeasuresNesting (separator : String) : Prop where
  deeper {candidate ancestor : String} : isBelow .bySegment separator candidate ancestor = true →
    depth ancestor separator + 1 ≤ depth candidate separator
  greatest (path : String) : Packs separator.toList (depth path separator) path.toList ∧
    ∀ n, Packs separator.toList n path.toList → n ≤ depth path separator
  undivided (path : String) : ¬separator.toList <:+: (lastSegment path separator).toList
  eq_self_iff (path : String) : lastSegment path separator = path ↔ depth path separator = 0
  ends {path : String} : depth path separator ≠ 0 →
    ∃ start, start ++ separator ++ lastSegment path separator = path

/-- Depth and last segment agree with nesting for every separator; depths add up over a separator,
and the last segment does not depend on what stands before one, exactly if the separator has no
border.  The title of a frame depends on the last segment only. -/
theorem measuresNesting (separator : String) (hne : separator ≠ "") :
    MeasuresNesting separator ∧
    (BorderFree separator.toList ↔ ∀ start path, depth (start ++ separator ++ path) separator =
      depth start separator + 1 + depth path separator) ∧
    (BorderFree separator.toList ↔ ∀ start path,
      lastSegment (start ++ separator ++ path) separator = lastSegment path separator) ∧
    (BorderFree separator.toList → ∀ r : FoldRules, r.separator = separator → ∀ start path,
      r.frameTitle (start ++ separator ++ path) = r.frameTitle path) := by
  refine ⟨⟨depth_lt_of_isBelow hne, isGreatest_depth hne, not_infix_lastSegment hne,
    lastSegment_eq_self_iff hne, exists_append_lastSegment hne⟩,
    ⟨depth_append hne, borderFree_of_depth_append hne⟩,
    ⟨lastSegment_append hne, borderFree_of_lastSegment_append hne⟩, ?_⟩
  rintro hs r rfl start path
  rw [FoldRules.frameTitle, FoldRules.frameTitle, lastSegment_append hne hs]

/-- `::` overlaps itself, so that the depth of `a:::b` counts one of two separators and its last
segment follows the other; `->` does not, and is counted wherever it stands. -/
theorem measuresNesting_colons_arrow : "::" ≠ "" ∧ "->" ≠ "" ∧
    isBelow .bySegment "::" "a:::b" "a" = true ∧ depth "a" "::" + 1 ≤ depth "a:::b" "::" ∧
    ¬"::".toList <:+: (lastSegment "a:::b" "::").toList ∧
    (¬∀ start path, lastSegment (start ++ "::" ++ path) "::" = lastSegment path "::") ∧
    depth ("a->b" ++ "->" ++ "c->") "->" = depth "a->b" "->" + 1 + depth "c->" "->" ∧
    ({ separator := "->" } : FoldRules).frameTitle ("a->b" ++ "->" ++ "c->") =
      ({ separator := "->" } : FoldRules).frameTitle "c->" := by
  have hcolons : "::" ≠ "" := by decide
  have harrow : "->" ≠ "" := by decide
  have hbelow : isBelow .bySegment "::" "a:::b" "a" = true := by decide
  have hborder : ¬BorderFree "::".toList := by decide
  have hfree : BorderFree "->".toList := by decide
  obtain ⟨hmeasures, -, hlast, -⟩ := measuresNesting "::" hcolons
  obtain ⟨-, hdepth, -, htitle⟩ := measuresNesting "->" harrow
  exact ⟨hcolons, harrow, hbelow, hmeasures.deeper hbelow, hmeasures.undivided _,
    mt hlast.mpr hborder, hdepth.mp hfree _ _, htitle hfree _ rfl _ _⟩

/-- The empty separator has no border either, but it parts nothing. -/
theorem not_forall_depth_append : ¬∀ separator : String, BorderFree separator.toList →
    ∀ start path, depth (start ++ separator ++ path) separator =
        depth start separator + 1 + depth path separator ∧
      lastSegment (start ++ separator ++ path) separator = lastSegment path separator := by
  intro h
  have hdepth := (h "" borderFree_nil "a" "b").1
  have hparts : depth ("a" ++ "" ++ "b") "" = 0 := rfl
  rw [hparts] at hdepth
  omega

end GraphFolding.ClusterPath
