/-
Which text is read as it is.

In escaped text a carriage return counts as a line end, except where it stands beside a
reference: directly before one it is taken as it is, and so it is as the last character directly
after one.

* `ReturnsSheltered` — every carriage return stands so;
* `length_readText_le` — what is read of text is not longer than the text;
* `readText_eq_self_iff` — text is read as it is if and only if its carriage returns are
  sheltered.
-/
import GraphFolding.Proofs.Escaping
namespace GraphFolding.Xml

/-- Whether every carriage return stands directly before a character that is written as a
reference, or is the last character and stands directly after one.  `after` says whether such a
character stands before the first one. -/
def ReturnsSheltered (after : Bool) : List Char → Prop
  | [] => True
  | c :: rest => (c = '\r' → rest.head?.any isMarked = true ∨ (rest = [] ∧ after = true)) ∧
      ReturnsSheltered (isMarked c) rest

instance decidableReturnsSheltered (after : Bool) :
    (cs : List Char) → Decidable (ReturnsSheltered after cs)
  | [] => isTrue trivial
  | c :: rest =>
    have := decidableReturnsSheltered (isMarked c) rest
    inferInstanceAs (Decidable (_ ∧ _))

/-! ### The length of what is read -/

theorem length_pushData_le (isLast : Bool) (c : Char) (data : List Char) :
    (pushData isLast c data).length ≤ data.length + 1 := by
  unfold pushData
  split
  · split
    · simp
    · split
      · simp
      · simp
  · split
    · simp
    · simp

theorem length_readTextInto_le (cs : List Char) : ∀ (data : List Char) (verbatim : Bool),
    (readTextInto data verbatim cs).length ≤ data.length + cs.length := by
  induction cs with
  | nil => exact fun _ _ => Nat.le_refl _
  | cons c cs ih =>
    intro data verbatim
    have hpush := length_pushData_le cs.isEmpty c data
    have hstep : (if verbatim then c :: data else pushData cs.isEmpty c data).length ≤
        data.length + 1 := by
      split
      · exact Nat.le_refl _
      · exact hpush
    rw [readTextInto, List.length_cons]
    split
    · have hle := ih (c :: data) true
      rw [List.length_cons] at hle
      omega
    · have hle := ih (if verbatim then c :: data else pushData cs.isEmpty c data) false
      omega

theorem length_readText_le (value : String) : (readText value).length ≤ value.length := by
  have hle := length_readTextInto_le value.toList [] false
  rw [readText, ← String.length_toList, String.toList_ofList, List.length_reverse,
    ← String.length_toList]
  simpa using hle

/-! ### What stays -/

theorem exists_pushData_cons (isLast : Bool) (c x : Char) (data : List Char) :
    ∃ y ys, pushData isLast c (x :: data) = y :: (ys ++ data) := by
  by_cases hx : x = '\r'
  · subst hx
    by_cases hc : c = '\r'
    · subst hc
      cases isLast with
      | true => exact ⟨'\n', ['\n'], rfl⟩
      | false => exact ⟨'\r', ['\n'], rfl⟩
    · by_cases hn : c = '\n'
      · exact ⟨'\n', [], by simp [pushData, hn]⟩
      · exact ⟨c, ['\n'], by simp [pushData, hc, hn]⟩
  · by_cases hc : isLast && c = '\r'
    · exact ⟨'\n', [x], by simp [pushData, hx, hc]⟩
    · exact ⟨c, [x], by simp [pushData, hx, hc]⟩

/-- What was read before the latest character stays. -/
theorem exists_readTextInto_cons (cs : List Char) : ∀ (x : Char) (data : List Char)
    (verbatim : Bool), ∃ out, readTextInto (x :: data) verbatim cs = out ++ data := by
  induction cs with
  | nil => exact fun x data _ => ⟨[x], rfl⟩
  | cons c cs ih =>
    intro x data verbatim
    have hstep : ∀ {state : List Char} (verbatim : Bool), (∃ y ys, state = y :: (ys ++ data)) →
        ∃ out, readTextInto state verbatim cs = out ++ data := by
      rintro _ verbatim ⟨y, ys, rfl⟩
      obtain ⟨out, hout⟩ := ih y (ys ++ data) verbatim
      exact ⟨out ++ ys, by rw [hout, List.append_assoc]⟩
    rw [readTextInto]
    split
    · exact hstep true ⟨c, [x], rfl⟩
    · split
      · exact hstep false ⟨c, [x], rfl⟩
      · exact hstep false (exists_pushData_cons _ c x data)

/-- A carriage return that waits for what follows it is lost, unless that is a reference. -/
theorem readTextInto_return_ne {c : Char} (hc : isMarked c = false) (cs data : List Char) :
    readTextInto ('\r' :: data) false (c :: cs) ≠ (cs.reverse ++ [c]) ++ '\r' :: data := by
  intro h
  rw [readTextInto, hc] at h
  simp only [Bool.false_eq_true, if_false] at h
  by_cases hn : c = '\n'
  · -- The two of them become one.
    have hle := length_readTextInto_le cs ('\n' :: data) false
    have hpush : pushData cs.isEmpty c ('\r' :: data) = '\n' :: data := by simp [pushData, hn]
    rw [hpush] at h
    rw [h] at hle
    simp only [List.length_append, List.length_reverse, List.length_cons, List.length_nil] at hle
    omega
  · -- A line feed stands where the carriage return did.
    obtain ⟨y, hpush⟩ : ∃ y, pushData cs.isEmpty c ('\r' :: data) = y :: '\n' :: data := by
      by_cases hlast : cs.isEmpty && c = '\r'
      · exact ⟨'\n', by simp [pushData, hlast]⟩
      · exact ⟨c, by simp [pushData, hlast, hn]⟩
    obtain ⟨out, hout⟩ := exists_readTextInto_cons cs y ('\n' :: data) false
    rw [hpush, hout] at h
    have htail := (List.append_inj' h rfl).2
    exact absurd (List.cons.inj htail).1 (by decide)

theorem pushData_of_head?_ne (isLast : Bool) (c : Char) {data : List Char}
    (hdata : data.head? ≠ some '\r') :
    pushData isLast c data = if isLast && c = '\r' then '\n' :: data else c :: data := by
  unfold pushData
  split
  · simp at hdata
  · rfl

/-- After data in which no carriage return waits, or only for a reference, characters are read as
they are if and only if their carriage returns are sheltered. -/
theorem readTextInto_eq_iff (cs : List Char) : ∀ {data : List Char} (verbatim : Bool),
    data.head? ≠ some '\r' ∨ cs.head?.any isMarked = true →
    (readTextInto data verbatim cs = cs.reverse ++ data ↔ ReturnsSheltered verbatim cs) := by
  induction cs with
  | nil => exact fun _ _ => iff_of_true rfl trivial
  | cons c cs ih =>
    intro data verbatim hdata
    have hnext : ∀ {v : Bool}, c ≠ '\r' ∨ cs.head?.any isMarked = true →
        (readTextInto (c :: data) v cs = (c :: cs).reverse ++ data ↔ ReturnsSheltered v cs) := by
      intro v hc
      rw [List.reverse_cons, List.append_assoc]
      exact ih v (hc.imp_left fun h => by simpa using h)
    rw [readTextInto, ReturnsSheltered]
    cases hmarked : isMarked c with
    | true =>
      have hc : c ≠ '\r' := by
        rintro rfl
        exact absurd hmarked (by decide)
      rw [if_pos rfl, hnext (.inl hc)]
      simp [hc]
    | false =>
      rw [List.head?_cons, Option.any_some, hmarked] at hdata
      have hpush := pushData_of_head?_ne cs.isEmpty c (hdata.resolve_right (by simp))
      rw [if_neg (by simp), hpush]
      by_cases hc : c = '\r'
      · subst hc
        cases cs with
        | nil =>
          -- The last carriage return is kept directly after a reference only.
          cases verbatim with
          | true => simp [readTextInto, ReturnsSheltered]
          | false => simp [readTextInto]
        | cons x cs =>
          simp only [List.isEmpty_cons, Bool.false_and, Bool.false_eq_true, if_false, ite_self]
          cases hx : isMarked x with
          | true =>
            rw [hnext (.inr (by simpa using hx))]
            simp [hx]
          | false =>
            have hne : readTextInto ('\r' :: data) false (x :: cs) ≠
                ('\r' :: x :: cs).reverse ++ data := by
              simpa using readTextInto_return_ne hx cs data
            exact iff_of_false hne (by simp [hx])
      · simp only [hc, decide_false, Bool.and_false, Bool.false_eq_true, if_false, ite_self]
        rw [hnext (.inl hc)]
        simp

theorem readText_eq_self_iff (value : String) :
    readText value = value ↔ ReturnsSheltered false value.toList := by
  rw [← readTextInto_eq_iff value.toList false (.inl (by simp : ([] : List Char).head? ≠ some '\r')),
    List.append_nil, readText, ← String.toList_inj, String.toList_ofList, List.reverse_eq_iff]

end GraphFolding.Xml
