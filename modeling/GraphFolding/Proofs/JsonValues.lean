/-
Values of JSON texts as they are read.

* `Json.Tree.value?` — what is read of a value, nested in less than some number of levels;
* `Json.Cursor.gives_value` — it is read so wherever the value stands;
* `Json.Cursor.mismatch_eq_error` — nothing is read where another kind of value was expected.
-/
import GraphFolding.Proofs.JsonNumerals
import GraphFolding.Proofs.JsonStrings
namespace GraphFolding.Json

open Data

/-! ### What is read of a value -/

mutual

/-- What is read of a value that may be nested in less than `depth` levels. -/
def Tree.value? (depth : Nat) : Tree → Option Value
  | .null => some .null
  | .bool b => some (.bool b)
  | .number literal => (numeralOf? literal).map .number
  | .text us => (textOf? us).map .text
  | .list ts => if depth ≤ 1 then none else (Tree.values? (depth - 1) ts).map .list
  | .object ms => if depth ≤ 1 then none else (Tree.memberValues? (depth - 1) ms).map .object

/-- What is read of the items of a list. -/
def Tree.values? (depth : Nat) : List Tree → Option (List Value)
  | [] => some []
  | t :: ts => (t.value? depth).bind fun v => (Tree.values? depth ts).map (v :: ·)

/-- What is read of the members of an object. -/
def Tree.memberValues? (depth : Nat) : List (List UInt16 × Tree) → Option (List (String × Value))
  | [] => some []
  | (name, t) :: ms => (textOf? name).bind fun name => (t.value? depth).bind fun v =>
      (Tree.memberValues? depth ms).map ((name, v) :: ·)

end

/-! ### First characters, and what may follow a value -/

/-- The characters that the texts of a value begin with. -/
def Tree.Starts : Tree → Char → Prop
  | .null, c => c = 'n'
  | .bool b, c => c = if b then 't' else 'f'
  | .number _, c => c = '-' ∨ isDigit c = true
  | .text _, c => c = '\x22'
  | .list _, c => c = '['
  | .object _, c => c = '\x7b'

theorem Written.starts {t : Tree} {text : List Char} (h : Written (.value t) text) :
    ∃ c rest, text = c :: rest ∧ t.Starts c := by
  cases h with
  | null => exact ⟨_, _, rfl, rfl⟩
  | yes => exact ⟨_, _, rfl, rfl⟩
  | no => exact ⟨_, _, rfl, rfl⟩
  | number hnumber =>
    rcases hnumber with hunsigned | ⟨unsigned, rfl, -⟩
    · obtain ⟨c, rest, rfl, hc⟩ := hunsigned.exists_cons
      exact ⟨c, rest, rfl, .inr hc⟩
    · exact ⟨_, _, rfl, .inl rfl⟩
  | text hquoted =>
    obtain ⟨body, rfl, -⟩ := hquoted
    exact ⟨_, _, rfl, rfl⟩
  | list _ => exact ⟨_, _, rfl, rfl⟩
  | object _ => exact ⟨_, _, rfl, rfl⟩

namespace Tree.Starts

variable {t : Tree}

theorem eq_null (h : t.Starts 'n') : t = .null := by
  cases t with
  | null => rfl
  | bool b => cases b <;> exact absurd h (by simp [Starts])
  | number literal => exact absurd h (by simp [Starts, isDigit])
  | _ => exact absurd h (by simp [Starts])

theorem exists_text (h : t.Starts '\x22') : ∃ us, t = .text us := by
  cases t with
  | text us => exact ⟨us, rfl⟩
  | bool b => cases b <;> exact absurd h (by simp [Starts])
  | number literal => exact absurd h (by simp [Starts, isDigit])
  | _ => exact absurd h (by simp [Starts])

theorem exists_list (h : t.Starts '[') : ∃ ts, t = .list ts := by
  cases t with
  | list ts => exact ⟨ts, rfl⟩
  | bool b => cases b <;> exact absurd h (by simp [Starts])
  | number literal => exact absurd h (by simp [Starts, isDigit])
  | _ => exact absurd h (by simp [Starts])

theorem exists_object (h : t.Starts '\x7b') : ∃ ms, t = .object ms := by
  cases t with
  | object ms => exact ⟨ms, rfl⟩
  | bool b => cases b <;> exact absurd h (by simp [Starts])
  | number literal => exact absurd h (by simp [Starts, isDigit])
  | _ => exact absurd h (by simp [Starts])

theorem exists_number {c : Char} (h : t.Starts c) (hc : c = '-' ∨ isDigit c = true) :
    ∃ literal, t = .number literal := by
  cases t with
  | number literal => exact ⟨literal, rfl⟩
  | bool b => cases b <;> (obtain rfl := h; exact absurd hc (by decide))
  | _ => obtain rfl := h; exact absurd hc (by decide)

/-- No value begins with a blank or a closing bracket. -/
theorem isBlank_eq_false {c : Char} (h : t.Starts c) :
    isBlank c = false ∧ c ≠ ']' ∧ c ≠ '\x7d' := by
  cases t with
  | bool b => cases b <;> (obtain rfl := h; decide)
  | number literal =>
    rcases h with rfl | hdigit
    · decide
    · refine ⟨?_, ?_, ?_⟩
      · rw [← Bool.not_eq_true]
        intro hblank
        simp only [isBlank, Bool.or_eq_true, decide_eq_true_eq] at hblank
        rcases hblank with ((rfl | rfl) | rfl) | rfl <;> exact absurd hdigit (by decide)
      · rintro rfl
        exact absurd hdigit (by decide)
      · rintro rfl
        exact absurd hdigit (by decide)
  | _ => obtain rfl := h; decide

end Tree.Starts

/-- A value begins with a character that is neither a blank nor a closing bracket. -/
theorem Written.exists_cons {t : Tree} {text : List Char} (h : Written (.value t) text) :
    ∃ c rest, text = c :: rest ∧ isBlank c = false ∧ c ≠ ']' ∧ c ≠ '\x7d' := by
  obtain ⟨c, rest, rfl, hc⟩ := h.starts
  exact ⟨c, rest, rfl, hc.isBlank_eq_false⟩

/-- A value that is neither a list nor an object begins with no bracket. -/
theorem Written.exists_simple {t : Tree} {text : List Char} (h : Written (.value t) text)
    (hlist : ∀ ts, t ≠ .list ts) (hobject : ∀ ms, t ≠ .object ms) :
    ∃ c rest, text = c :: rest ∧ isBlank c = false ∧ c ≠ '[' ∧ c ≠ '\x7b' := by
  obtain ⟨c, rest, rfl, hc⟩ := h.starts
  refine ⟨c, rest, rfl, hc.isBlank_eq_false.1, ?_, ?_⟩
  · rintro rfl
    obtain ⟨ts, rfl⟩ := hc.exists_list
    exact hlist ts rfl
  · rintro rfl
    obtain ⟨ms, rfl⟩ := hc.exists_object
    exact hobject ms rfl

theorem ends_cons {c : Char} (h : c = ',' ∨ c = ']' ∨ c = '\x7d') (rest : List Char) :
    Ends (c :: rest) := by
  intro x hx
  obtain rfl : c = x := by simpa using hx
  exact .inr h

theorem Ends.blanks_append {blanks rest : List Char} (hblanks : IsBlanks blanks)
    (h : Ends rest) : Ends (blanks ++ rest) := by
  rcases blanks with _ | ⟨c, blanks⟩
  · exact h
  · intro x hx
    obtain rfl : c = x := by simpa using hx
    exact .inl (hblanks c List.mem_cons_self)

/-- Further items begin with a comma, or the list ends. -/
theorem Written.ends_items {ts : List Tree} {text : List Char} (h : Written (.items false ts) text)
    (rest : List Char) : Ends (text ++ ']' :: rest) := by
  cases h with
  | noItem hblanks => exact (ends_cons (.inr (.inl rfl)) rest).blanks_append hblanks
  | item hbefore _ _ _ =>
    rw [List.append_assoc]
    exact (ends_cons (.inl rfl) _).blanks_append hbefore

/-- Further members begin with a comma, or the object ends. -/
theorem Written.ends_members {ms : List Member} {text : List Char}
    (h : Written (.members false ms) text) (rest : List Char) : Ends (text ++ '\x7d' :: rest) := by
  cases h with
  | noMember hblanks => exact (ends_cons (.inr (.inr rfl)) rest).blanks_append hblanks
  | member hbefore _ _ _ _ _ _ =>
    rw [List.append_assoc]
    exact (ends_cons (.inl rfl) _).blanks_append hbefore

theorem IsBlanks.append {before after : List Char} (hbefore : IsBlanks before)
    (hafter : IsBlanks after) : IsBlanks (before ++ after) :=
  fun c hc => (List.mem_append.mp hc).elim (hbefore c) (hafter c)

namespace Cursor

/-! ### Items and keys -/

theorem gives_nextItem_end {k : Cursor} {blanks rest : List Char} (hblanks : IsBlanks blanks)
    (h : k.rest = blanks ++ ']' :: rest) (isFirst : Bool) :
    Gives (k.nextItem isFirst) (some false) rest := by
  have hend := rest_skipBlanks_cons hblanks h rfl
  simp only [nextItem, hend]
  exact gives_ok (rest_advance hend)

/-- The next item, its first character being no closing bracket. -/
theorem gives_nextItem {k : Cursor} {isFirst : Bool} {before after rest : List Char} {c : Char}
    (hbefore : IsBlanks before) (hafter : IsBlanks after) (hblank : isBlank c = false)
    (hc : c ≠ ']') (h : k.rest = before ++ (comma isFirst ++ (after ++ c :: rest))) :
    Gives (k.nextItem isFirst) (some true) (c :: rest) := by
  cases isFirst with
  | true =>
    have hnext := rest_skipBlanks_cons (hbefore.append hafter)
      (by rw [h, List.append_assoc]; rfl) hblank
    simp only [nextItem]
    split
    · rename_i heq
      exact absurd (hnext.symm.trans heq) (List.cons_ne_nil _ _)
    · rename_i heq
      exact absurd (List.cons.inj (hnext.symm.trans heq)).1 hc
    · exact gives_ok hnext
  | false =>
    have hcomma : k.skipBlanks.rest = ',' :: (after ++ c :: rest) :=
      rest_skipBlanks_cons hbefore h rfl
    have hnext := rest_skipBlanks_cons hafter (rest_advance hcomma) hblank
    simp only [nextItem]
    split
    · rename_i heq
      exact absurd (hcomma.symm.trans heq) (List.cons_ne_nil _ _)
    · rename_i heq
      exact absurd (List.cons.inj (hcomma.symm.trans heq)).1 (by decide)
    · rename_i heq
      obtain ⟨rfl, -⟩ := List.cons.inj (hcomma.symm.trans heq)
      rw [if_neg Bool.false_ne_true, if_pos rfl]
      split
      · rename_i heq
        exact absurd (hnext.symm.trans heq) (List.cons_ne_nil _ _)
      · rename_i heq
        exact absurd (List.cons.inj (hnext.symm.trans heq)).1 hc
      · exact gives_ok hnext

theorem gives_nextKey_end {k : Cursor} {blanks rest : List Char} (hblanks : IsBlanks blanks)
    (h : k.rest = blanks ++ '\x7d' :: rest) (isFirst : Bool) :
    Gives (k.nextKey isFirst) (some none) rest := by
  have hend := rest_skipBlanks_cons hblanks h rfl
  simp only [nextKey, hend]
  exact gives_ok (rest_advance hend)

theorem gives_nextKey_key {k : Cursor} {name : List UInt16} {key rest : List Char}
    (hkey : Quoted name key) (h : k.rest = key ++ rest) :
    Gives (nextKey.key k) ((textOf? name).map some) rest := by
  obtain ⟨body, rfl, hbody⟩ := hkey
  rw [List.cons_append, List.append_assoc] at h
  exact (gives_string hbody (rest_advance h)).map some

/-- The next key. -/
theorem gives_nextKey {k : Cursor} {isFirst : Bool} {name : List UInt16}
    {before after key rest : List Char} (hbefore : IsBlanks before) (hafter : IsBlanks after)
    (hkey : Quoted name key) (h : k.rest = before ++ (comma isFirst ++ (after ++ (key ++ rest)))) :
    Gives (k.nextKey isFirst) ((textOf? name).map some) rest := by
  have hquote := hkey
  obtain ⟨body, rfl, -⟩ := hquote
  rw [List.cons_append] at h
  cases isFirst with
  | true =>
    rw [comma, if_pos rfl, List.nil_append, ← List.append_assoc] at h
    have hnext := rest_skipBlanks_cons (hbefore.append hafter) h rfl
    simp only [nextKey, hnext]
    exact gives_nextKey_key hkey hnext
  | false =>
    have hcomma := rest_skipBlanks_cons hbefore h rfl
    have hnext := rest_skipBlanks_cons hafter (rest_advance hcomma) rfl
    simp only [nextKey, hcomma, hnext]
    exact gives_nextKey_key hkey hnext

/-! ### Simple values -/

/-- A number as a value, wherever a digit or its sign comes next. -/
theorem gives_simpleValue_number {literal : List Char} (h : IsNumber literal) {k : Cursor}
    {rest : List Char} (hk : k.rest = literal ++ rest) (hrest : Ends rest) :
    Gives k.simpleValue ((numeralOf? literal).map .number) rest := by
  rcases h with hunsigned | ⟨unsigned, rfl, hunsigned⟩
  · obtain ⟨c, more, rfl, hc⟩ := hunsigned.exists_cons
    have hgives := gives_numeral hunsigned k rest hk hrest
    rw [simpleValue]
    split
    case h_7 heq =>
      obtain ⟨rfl, -⟩ := List.cons.inj (hk.symm.trans heq)
      rw [if_pos hc]
      exact hgives.map Value.number
    case h_1 heq => simp [hk] at heq
    all_goals
      rename_i heq
      obtain ⟨rfl, -⟩ := List.cons.inj (hk.symm.trans heq)
      exact absurd hc (by decide)
  · rw [List.cons_append] at hk
    rw [simpleValue, hk]
    exact (gives_numeral_negative hunsigned k.advance rest (rest_advance hk) hrest).map Value.number

theorem gives_simpleValue_text {us : List UInt16} {quoted : List Char} (h : Quoted us quoted)
    {k : Cursor} {rest : List Char} (hk : k.rest = quoted ++ rest) :
    Gives k.simpleValue ((textOf? us).map .text) rest := by
  obtain ⟨body, rfl, hbody⟩ := h
  rw [List.cons_append, List.append_assoc] at hk
  rw [simpleValue, hk]
  exact (gives_string hbody (rest_advance hk)).map Value.text

/-- A value that is neither a list nor an object. -/
theorem gives_simpleValue {t : Tree} {text : List Char} (h : Written (.value t) text)
    (hlist : ∀ ts, t ≠ .list ts) (hobject : ∀ ms, t ≠ .object ms) (depth : Nat) {k : Cursor}
    {rest : List Char} (hk : k.rest = text ++ rest) (hrest : Ends rest) :
    Gives k.simpleValue (t.value? depth) rest := by
  cases h with
  | null =>
    rw [simpleValue, hk]
    obtain ⟨k', hword, hk'⟩ := passes_expectWord "ull".toList (rest_advance hk)
    exact ⟨k', by rw [hword]; rfl, hk'⟩
  | yes =>
    rw [simpleValue, hk]
    obtain ⟨k', hword, hk'⟩ := passes_expectWord "rue".toList (rest_advance hk)
    exact ⟨k', by rw [hword]; rfl, hk'⟩
  | no =>
    rw [simpleValue, hk]
    obtain ⟨k', hword, hk'⟩ := passes_expectWord "alse".toList (rest_advance hk)
    exact ⟨k', by rw [hword]; rfl, hk'⟩
  | number hnumber => exact gives_simpleValue_number hnumber hk hrest
  | text hquoted => exact gives_simpleValue_text hquoted hk
  | list _ => exact absurd rfl (hlist _)
  | object _ => exact absurd rfl (hobject _)

/-! ### Values -/

theorem valueWithin_list {k : Cursor} {rest : List Char} (h : k.skipBlanks.rest = '[' :: rest)
    (fuel depth : Nat) : valueWithin (fuel + 1) depth k =
      if depth ≤ 1 then k.skipBlanks.failNext .tooDeep
      else itemsWithin fuel (depth - 1) true k.skipBlanks.advance >>= fun (items, k) =>
        pure (.list items, k) := by
  simp only [valueWithin, h]

theorem valueWithin_object {k : Cursor} {rest : List Char}
    (h : k.skipBlanks.rest = '\x7b' :: rest) (fuel depth : Nat) :
    valueWithin (fuel + 1) depth k =
      if depth ≤ 1 then k.skipBlanks.failNext .tooDeep
      else membersWithin fuel (depth - 1) true k.skipBlanks.advance >>= fun (members, k) =>
        pure (.object members, k) := by
  simp only [valueWithin, h]

theorem valueWithin_simple {k : Cursor} {c : Char} {rest : List Char}
    (h : k.skipBlanks.rest = c :: rest) (hlist : c ≠ '[') (hobject : c ≠ '\x7b')
    (fuel depth : Nat) : valueWithin (fuel + 1) depth k = k.skipBlanks.simpleValue := by
  simp only [valueWithin]
  split
  · rename_i heq
    exact absurd (List.cons.inj (h.symm.trans heq)).1 hlist
  · rename_i heq
    exact absurd (List.cons.inj (h.symm.trans heq)).1 hobject
  · rfl

/-- What the readers give of a text written from a part, given fuel for its characters. -/
def ReadsPart : Part → List Char → Prop
  | .value t, text => ∀ {fuel depth : Nat} {k : Cursor} {blanks rest : List Char},
      IsBlanks blanks → k.rest = blanks ++ (text ++ rest) → Ends rest → 2 * text.length < fuel →
      Gives (valueWithin fuel depth k) (t.value? depth) rest
  | .items isFirst ts, text => ∀ {fuel depth : Nat} {k : Cursor} {rest : List Char},
      k.rest = text ++ ']' :: rest → 2 * text.length + 1 < fuel →
      Gives (itemsWithin fuel depth isFirst k) (Tree.values? depth ts) rest
  | .members isFirst ms, text => ∀ {fuel depth : Nat} {k : Cursor} {rest : List Char},
      k.rest = text ++ '\x7d' :: rest → 2 * text.length + 1 < fuel →
      Gives (membersWithin fuel depth isFirst k) (Tree.memberValues? depth ms) rest

/-- A simple value is read by its first character. -/
theorem readsPart_simple {t : Tree} {text : List Char} (h : Written (.value t) text)
    (hlist : ∀ ts, t ≠ .list ts) (hobject : ∀ ms, t ≠ .object ms) : ReadsPart (.value t) text := by
  rintro (_ | fuel) depth k blanks rest hblanks hk hrest hfuel
  · exact absurd hfuel (Nat.not_lt_zero _)
  · obtain ⟨c, more, rfl, hblank, hhead, hhead'⟩ := h.exists_simple hlist hobject
    have hnext := rest_skipBlanks_cons hblanks hk hblank
    rw [valueWithin_simple hnext hhead hhead']
    exact gives_simpleValue h hlist hobject depth hnext hrest

theorem readsPart_item {isFirst : Bool} {t : Tree} {ts : List Tree}
    {before after value items : List Char} (hbefore : IsBlanks before) (hafter : IsBlanks after)
    (hvalue : Written (.value t) value) (hitems : Written (.items false ts) items)
    (ihvalue : ReadsPart (.value t) value) (ihitems : ReadsPart (.items false ts) items) :
    ReadsPart (.items isFirst (t :: ts))
      (before ++ (comma isFirst ++ (after ++ (value ++ items)))) := by
  rintro (_ | fuel) depth k rest hk hfuel
  · exact absurd hfuel (Nat.not_lt_zero _)
  · obtain ⟨c, more, rfl, hblank, hc, -⟩ := hvalue.exists_cons
    simp only [List.append_assoc] at hk
    rw [itemsWithin, Tree.values?]
    refine (gives_nextItem hbefore hafter hblank hc hk).bind_some fun k₁ hk₁ => ?_
    simp only [List.length_append, List.length_cons] at hfuel
    refine (ihvalue isBlanks_nil hk₁ (hitems.ends_items rest)
      (by simp only [List.length_cons]; omega)).bind fun v k₂ hk₂ => ?_
    exact (ihitems hk₂ (by omega)).map (v :: ·)

theorem readsPart_member {isFirst : Bool} {name : List UInt16} {t : Tree} {ms : List Member}
    {before after key beforeColon afterColon value members : List Char}
    (hbefore : IsBlanks before) (hafter : IsBlanks after) (hkey : Quoted name key)
    (hbeforeColon : IsBlanks beforeColon) (hafterColon : IsBlanks afterColon)
    (hmembers : Written (.members false ms) members) (ihvalue : ReadsPart (.value t) value)
    (ihmembers : ReadsPart (.members false ms) members) :
    ReadsPart (.members isFirst ((name, t) :: ms)) (before ++ (comma isFirst ++ (after ++ (key ++
      (beforeColon ++ ':' :: (afterColon ++ (value ++ members))))))) := by
  rintro (_ | fuel) depth k rest hk hfuel
  · exact absurd hfuel (Nat.not_lt_zero _)
  · simp only [List.append_assoc, List.cons_append] at hk
    simp only [List.length_append, List.length_cons] at hfuel
    have hname := gives_nextKey hbefore hafter hkey hk
    rw [membersWithin, Tree.memberValues?]
    rcases htext : textOf? name with _ | text
    · rw [htext] at hname
      exact gives_bind_of_error hname
    · rw [htext] at hname
      refine hname.bind_some fun k₁ hk₁ => ?_
      refine (passes_expectColon hbeforeColon hk₁).bind fun k₂ hk₂ => ?_
      refine (ihvalue hafterColon hk₂ (hmembers.ends_members rest) (by omega)).bind
        fun v k₃ hk₃ => ?_
      exact (ihmembers hk₃ (by omega)).map ((text, v) :: ·)

theorem readsPart_list {ts : List Tree} {inner : List Char}
    (ih : ReadsPart (.items true ts) inner) :
    ReadsPart (.value (.list ts)) ('[' :: (inner ++ [']'])) := by
  rintro (_ | fuel) depth k blanks rest hblanks hk - hfuel
  · exact absurd hfuel (Nat.not_lt_zero _)
  · rw [List.cons_append, List.append_assoc] at hk
    simp only [List.length_append, List.length_cons] at hfuel
    have hopen := rest_skipBlanks_cons hblanks hk rfl
    rw [valueWithin_list hopen, Tree.value?]
    split_ifs
    · exact gives_error _
    · exact (ih (rest_advance hopen) (by omega)).map Value.list

theorem readsPart_object {ms : List Member} {inner : List Char}
    (ih : ReadsPart (.members true ms) inner) :
    ReadsPart (.value (.object ms)) ('\x7b' :: (inner ++ ['\x7d'])) := by
  rintro (_ | fuel) depth k blanks rest hblanks hk - hfuel
  · exact absurd hfuel (Nat.not_lt_zero _)
  · rw [List.cons_append, List.append_assoc] at hk
    simp only [List.length_append, List.length_cons] at hfuel
    have hopen := rest_skipBlanks_cons hblanks hk rfl
    rw [valueWithin_object hopen, Tree.value?]
    split_ifs
    · exact gives_error _
    · exact (ih (rest_advance hopen) (by omega)).map Value.object

theorem readsPart_noItem {isFirst : Bool} {blanks : List Char} (hblanks : IsBlanks blanks) :
    ReadsPart (.items isFirst []) blanks := by
  rintro (_ | fuel) depth k rest hk hfuel
  · exact absurd hfuel (Nat.not_lt_zero _)
  · rw [itemsWithin, Tree.values?]
    exact (gives_nextItem_end hblanks hk isFirst).bind_some fun k' hk' => gives_ok hk'

theorem readsPart_noMember {isFirst : Bool} {blanks : List Char} (hblanks : IsBlanks blanks) :
    ReadsPart (.members isFirst []) blanks := by
  rintro (_ | fuel) depth k rest hk hfuel
  · exact absurd hfuel (Nat.not_lt_zero _)
  · rw [membersWithin, Tree.memberValues?]
    exact (gives_nextKey_end hblanks hk isFirst).bind_some fun k' hk' => gives_ok hk'

/-- What is read of any part, by induction on how its text is written. -/
theorem readsPart {part : Part} {text : List Char} (h : Written part text) :
    ReadsPart part text := by
  induction h with
  | null => exact readsPart_simple .null (by simp) (by simp)
  | yes => exact readsPart_simple .yes (by simp) (by simp)
  | no => exact readsPart_simple .no (by simp) (by simp)
  | number hnumber => exact readsPart_simple (.number hnumber) (by simp) (by simp)
  | text hquoted => exact readsPart_simple (.text hquoted) (by simp) (by simp)
  | list _ ih => exact readsPart_list ih
  | object _ ih => exact readsPart_object ih
  | noItem hblanks => exact readsPart_noItem hblanks
  | item hbefore hafter hvalue hitems ihvalue ihitems =>
    exact readsPart_item hbefore hafter hvalue hitems ihvalue ihitems
  | noMember hblanks => exact readsPart_noMember hblanks
  | member hbefore hafter hkey hbeforeColon hafterColon _ hmembers ihvalue ihmembers =>
    exact readsPart_member hbefore hafter hkey hbeforeColon hafterColon hmembers ihvalue ihmembers

/-- A value, wherever it stands. -/
theorem gives_value {t : Tree} {text : List Char} (h : Written (.value t) text) (depth : Nat)
    {k : Cursor} {blanks rest : List Char} (hblanks : IsBlanks blanks)
    (hk : k.rest = blanks ++ (text ++ rest)) (hrest : Ends rest) :
    Gives (k.value depth) (t.value? depth) rest := by
  refine readsPart h hblanks hk hrest ?_
  rw [hk]
  simp only [List.length_append]
  omega

/-- Nothing is read where a value of another kind was expected. -/
theorem mismatch_eq_error {α : Type} (k : Cursor) (expected : Expected) :
    ∃ e, (k.mismatch expected : Except Error α) = .error e := by
  rw [mismatch]
  split
  · exact ⟨_, rfl⟩
  · exact ⟨_, rfl⟩
  · rcases k.simpleValue with e | ⟨v, k'⟩
    · exact ⟨e, rfl⟩
    · exact ⟨_, rfl⟩

end Cursor
end GraphFolding.Json
