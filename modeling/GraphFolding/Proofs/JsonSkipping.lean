/-
Values of JSON texts that are passed over.

Brackets that are open are kept on a stack, so that a value is passed over without recursion:

* `Json.Cursor.GoesOn` — the reader stands behind a value, some brackets still open;
* `Json.Cursor.passes_skipValue` — a value of any kind, nested to any depth, is passed over.
-/
import GraphFolding.Proofs.JsonValues
namespace GraphFolding.Json.Cursor

/-! ### Simple values and keys -/

/-- Past a value that is neither a list nor an object. -/
theorem passes_skipSimpleValue {t : Tree} {text : List Char} (h : Written (.value t) text)
    (hlist : ∀ ts, t ≠ .list ts) (hobject : ∀ ms, t ≠ .object ms) {k : Cursor}
    {rest : List Char} (hk : k.rest = text ++ rest) (hrest : Ends rest) :
    Passes k.skipSimpleValue rest := by
  cases h with
  | null =>
    rw [skipSimpleValue, hk]
    exact passes_expectWord "ull".toList (rest_advance hk)
  | yes =>
    rw [skipSimpleValue, hk]
    exact passes_expectWord "rue".toList (rest_advance hk)
  | no =>
    rw [skipSimpleValue, hk]
    exact passes_expectWord "alse".toList (rest_advance hk)
  | number hnumber =>
    rcases hnumber with hunsigned | ⟨unsigned, rfl, hunsigned⟩
    · have hpasses := passes_skipNumeral hunsigned hk hrest
      obtain ⟨c, more, rfl, hc⟩ := hunsigned.exists_cons
      rw [skipSimpleValue]
      split
      case h_7 heq =>
        obtain ⟨rfl, -⟩ := List.cons.inj (hk.symm.trans heq)
        rw [if_pos hc]
        exact hpasses
      case h_1 heq => simp [hk] at heq
      all_goals
        rename_i heq
        obtain ⟨rfl, -⟩ := List.cons.inj (hk.symm.trans heq)
        exact absurd hc (by decide)
    · rw [List.cons_append] at hk
      rw [skipSimpleValue, hk]
      exact passes_skipNumeral hunsigned (rest_advance hk) hrest
  | text hquoted =>
    obtain ⟨body, rfl, hbody⟩ := hquoted
    rw [List.cons_append, List.append_assoc] at hk
    rw [skipSimpleValue, hk]
    exact passes_skipString hbody (rest_advance hk)
  | list _ => exact absurd rfl (hlist _)
  | object _ => exact absurd rfl (hobject _)

/-- Past a key and its colon. -/
theorem passes_skipKey {name : List UInt16} {blanks key beforeColon rest : List Char}
    (hblanks : IsBlanks blanks) (hkey : Quoted name key) (hbeforeColon : IsBlanks beforeColon)
    {k : Cursor} (hk : k.rest = blanks ++ (key ++ (beforeColon ++ ':' :: rest))) :
    Passes k.skipKey rest := by
  obtain ⟨body, rfl, hbody⟩ := hkey
  rw [List.cons_append, List.append_assoc] at hk
  have hquote := rest_skipBlanks_cons hblanks hk rfl
  simp only [skipKey, hquote]
  exact (passes_skipString hbody (rest_advance hquote)).bind_passes fun k' hk' =>
    passes_expectColon hbeforeColon hk'

/-! ### The stack of open brackets -/

/-- Past what leads to the next value, and then past that value and what follows it. -/
def skipFrom (fuel₁ fuel₂ : Nat) (justOpened : Bool) (stack : List Bracket) (k : Cursor) :
    Except Error Cursor := do
  let (stack, k) ← skipToValue fuel₁ justOpened stack k
  if stack.isEmpty then return k else skipWithin fuel₂ stack k

/-- The reader stands behind a value, with brackets on its stack and fuel for what is left. -/
def GoesOn (x : Except Error Cursor) (stack : List Bracket) (rest : List Char) : Prop :=
  ∃ fuel₁ fuel₂ k, x = skipFrom fuel₁ fuel₂ false stack k ∧ k.rest = rest ∧
    rest.length < fuel₁ ∧ rest.length < fuel₂

theorem skipWithin_list {k : Cursor} {rest : List Char} (h : k.skipBlanks.rest = '[' :: rest)
    (fuel : Nat) (stack : List Bracket) : skipWithin (fuel + 1) stack k =
      skipFrom fuel fuel true (.list :: stack) k.skipBlanks.advance := by
  simp only [skipWithin, h]
  rfl

theorem skipWithin_object {k : Cursor} {rest : List Char}
    (h : k.skipBlanks.rest = '\x7b' :: rest) (fuel : Nat) (stack : List Bracket) :
    skipWithin (fuel + 1) stack k =
      skipFrom fuel fuel true (.object :: stack) k.skipBlanks.advance := by
  simp only [skipWithin, h]
  rfl

theorem skipWithin_simple {k k' : Cursor} {c : Char} {rest : List Char}
    (h : k.skipBlanks.rest = c :: rest) (hlist : c ≠ '[') (hobject : c ≠ '\x7b')
    (hk' : k.skipBlanks.skipSimpleValue = .ok k') (fuel : Nat) (stack : List Bracket) :
    skipWithin (fuel + 1) stack k = skipFrom fuel fuel false stack k' := by
  simp only [skipWithin]
  split
  · rename_i heq
    exact absurd (List.cons.inj (h.symm.trans heq)).1 hlist
  · rename_i heq
    exact absurd (List.cons.inj (h.symm.trans heq)).1 hobject
  · rw [hk']
    rfl

theorem skipFrom_of_value {fuel₁ : Nat} {justOpened : Bool} {bracket : Bracket}
    {stack : List Bracket} {k k' : Cursor}
    (h : skipToValue fuel₁ justOpened (bracket :: stack) k = .ok (bracket :: stack, k'))
    (fuel₂ : Nat) : skipFrom fuel₁ fuel₂ justOpened (bracket :: stack) k =
      skipWithin fuel₂ (bracket :: stack) k' := by
  rw [skipFrom, h]
  rfl

theorem goesOn_list_end {k : Cursor} {blanks rest : List Char} (hblanks : IsBlanks blanks)
    (hk : k.rest = blanks ++ ']' :: rest) {fuel₁ fuel₂ : Nat} (hfuel₁ : k.rest.length < fuel₁)
    (hfuel₂ : k.rest.length < fuel₂) (justOpened : Bool) (stack : List Bracket) :
    GoesOn (skipFrom fuel₁ fuel₂ justOpened (.list :: stack) k) stack rest := by
  obtain _ | fuel₁ := fuel₁
  · exact absurd hfuel₁ (Nat.not_lt_zero _)
  rw [hk, List.length_append, List.length_cons] at hfuel₁ hfuel₂
  have hclose := rest_skipBlanks_cons hblanks hk rfl
  refine ⟨fuel₁, fuel₂, k.skipBlanks.advance, ?_, rest_advance hclose, by omega, by omega⟩
  rw [skipFrom, skipFrom, skipToValue.eq_5 _ _ _ _ _ hclose]

theorem goesOn_object_end {k : Cursor} {blanks rest : List Char} (hblanks : IsBlanks blanks)
    (hk : k.rest = blanks ++ '\x7d' :: rest) {fuel₁ fuel₂ : Nat} (hfuel₁ : k.rest.length < fuel₁)
    (hfuel₂ : k.rest.length < fuel₂) (justOpened : Bool) (stack : List Bracket) :
    GoesOn (skipFrom fuel₁ fuel₂ justOpened (.object :: stack) k) stack rest := by
  obtain _ | fuel₁ := fuel₁
  · exact absurd hfuel₁ (Nat.not_lt_zero _)
  rw [hk, List.length_append, List.length_cons] at hfuel₁ hfuel₂
  have hclose := rest_skipBlanks_cons hblanks hk rfl
  refine ⟨fuel₁, fuel₂, k.skipBlanks.advance, ?_, rest_advance hclose, by omega, by omega⟩
  rw [skipFrom, skipFrom, skipToValue.eq_6 _ _ _ _ _ hclose]

/-- To the next item, past the comma that stands before it. -/
theorem skipToValue_item {k : Cursor} {isFirst : Bool} {before after rest : List Char} {c : Char}
    (hbefore : IsBlanks before) (hafter : IsBlanks after) (hblank : isBlank c = false)
    (hc : c ≠ ']') (hk : k.rest = before ++ (comma isFirst ++ (after ++ c :: rest))) (fuel : Nat)
    (stack : List Bracket) : ∃ blanks k', IsBlanks blanks ∧ k'.rest = blanks ++ c :: rest ∧
      k'.rest.length ≤ k.rest.length ∧
      skipToValue (fuel + 1) isFirst (.list :: stack) k = .ok (.list :: stack, k') := by
  cases isFirst with
  | true =>
    have hnext := rest_skipBlanks_cons (hbefore.append hafter)
      (by rw [hk, List.append_assoc]; rfl) hblank
    refine ⟨[], k.skipBlanks, isBlanks_nil, hnext, ?_, ?_⟩
    · rw [hnext, hk]
      simp only [List.length_append]
      omega
    rw [skipToValue.eq_7 _ _ _ _ _ _ hnext (fun _ h => hc h) (fun h _ => by cases h)]
    rfl
  | false =>
    have hcomma : k.skipBlanks.rest = ',' :: (after ++ c :: rest) :=
      rest_skipBlanks_cons hbefore hk rfl
    refine ⟨after, k.skipBlanks.advance, hafter, rest_advance hcomma, ?_, ?_⟩
    · rw [rest_advance hcomma, hk]
      simp only [List.length_append]
      omega
    rw [skipToValue.eq_7 _ _ _ _ _ _ hcomma (by decide) (by decide)]
    rfl

/-- To the next value of an object, past its key. -/
theorem skipToValue_member {k : Cursor} {isFirst : Bool} {name : List UInt16}
    {before after key beforeColon rest : List Char} (hbefore : IsBlanks before)
    (hafter : IsBlanks after) (hkey : Quoted name key) (hbeforeColon : IsBlanks beforeColon)
    (hk : k.rest = before ++ (comma isFirst ++ (after ++ (key ++ (beforeColon ++ ':' :: rest)))))
    (fuel : Nat) (stack : List Bracket) : ∃ k', k'.rest = rest ∧
      skipToValue (fuel + 1) isFirst (.object :: stack) k = .ok (.object :: stack, k') := by
  have hbody := hkey
  obtain ⟨body, rfl, -⟩ := hbody
  cases isFirst with
  | true =>
    rw [comma, if_pos rfl, List.nil_append, ← List.append_assoc] at hk
    have hnext := rest_skipBlanks_cons (hbefore.append hafter) hk rfl
    obtain ⟨k', hskip, hk'⟩ := passes_skipKey isBlanks_nil hkey hbeforeColon hnext
    refine ⟨k', hk', ?_⟩
    rw [skipToValue.eq_8 _ _ _ _ _ _ hnext (by decide) (by decide), if_pos rfl]
    dsimp only
    rw [hskip]
    rfl
  | false =>
    have hcomma := rest_skipBlanks_cons hbefore hk rfl
    obtain ⟨k', hskip, hk'⟩ := passes_skipKey hafter hkey hbeforeColon (rest_advance hcomma)
    refine ⟨k', hk', ?_⟩
    rw [skipToValue.eq_8 _ _ _ _ _ _ hcomma (by decide) (by decide), if_neg Bool.false_ne_true,
      if_pos rfl]
    dsimp only
    rw [hskip]
    rfl

/-! ### Values -/

/-- How the reader goes on behind a text written from a part, given fuel for what is left. -/
def SkipsPart : Part → List Char → Prop
  | .value _, text => ∀ (stack : List Bracket) {fuel : Nat} {k : Cursor}
      {blanks rest : List Char}, IsBlanks blanks → k.rest = blanks ++ (text ++ rest) →
      Ends rest → k.rest.length < fuel → GoesOn (skipWithin fuel stack k) stack rest
  | .items isFirst _, text => ∀ (stack : List Bracket) {fuel₁ fuel₂ : Nat} {k : Cursor}
      {rest : List Char}, k.rest = text ++ ']' :: rest → k.rest.length < fuel₁ →
      k.rest.length < fuel₂ →
      GoesOn (skipFrom fuel₁ fuel₂ isFirst (.list :: stack) k) stack rest
  | .members isFirst _, text => ∀ (stack : List Bracket) {fuel₁ fuel₂ : Nat} {k : Cursor}
      {rest : List Char}, k.rest = text ++ '\x7d' :: rest → k.rest.length < fuel₁ →
      k.rest.length < fuel₂ →
      GoesOn (skipFrom fuel₁ fuel₂ isFirst (.object :: stack) k) stack rest

theorem skipsPart_simple {t : Tree} {text : List Char} (h : Written (.value t) text)
    (hlist : ∀ ts, t ≠ .list ts) (hobject : ∀ ms, t ≠ .object ms) : SkipsPart (.value t) text := by
  rintro stack (_ | fuel) k blanks rest hblanks hk hrest hfuel
  · exact absurd hfuel (Nat.not_lt_zero _)
  · obtain ⟨c, more, rfl, hblank, hhead, hhead'⟩ := h.exists_simple hlist hobject
    rw [hk] at hfuel
    simp only [List.length_append, List.length_cons] at hfuel
    have hnext := rest_skipBlanks_cons hblanks hk hblank
    obtain ⟨k', hskip, hk'⟩ := passes_skipSimpleValue h hlist hobject hnext hrest
    rw [skipWithin_simple hnext hhead hhead' hskip]
    exact ⟨fuel, fuel, k', rfl, hk', by omega, by omega⟩

theorem skipsPart_list {ts : List Tree} {inner : List Char}
    (ih : SkipsPart (.items true ts) inner) :
    SkipsPart (.value (.list ts)) ('[' :: (inner ++ [']'])) := by
  rintro stack (_ | fuel) k blanks rest hblanks hk - hfuel
  · exact absurd hfuel (Nat.not_lt_zero _)
  · rw [List.cons_append, List.append_assoc] at hk
    have hopen := rest_skipBlanks_cons hblanks hk rfl
    -- One bracket is left less to read, which pays for the step.
    have hlength : k.skipBlanks.advance.rest.length < fuel := by
      rw [hk] at hfuel
      rw [rest_advance hopen]
      simp only [List.length_append, List.length_cons] at hfuel ⊢
      omega
    rw [skipWithin_list hopen]
    exact ih _ (rest_advance hopen) hlength hlength

theorem skipsPart_object {ms : List Member} {inner : List Char}
    (ih : SkipsPart (.members true ms) inner) :
    SkipsPart (.value (.object ms)) ('\x7b' :: (inner ++ ['\x7d'])) := by
  rintro stack (_ | fuel) k blanks rest hblanks hk - hfuel
  · exact absurd hfuel (Nat.not_lt_zero _)
  · rw [List.cons_append, List.append_assoc] at hk
    have hopen := rest_skipBlanks_cons hblanks hk rfl
    have hlength : k.skipBlanks.advance.rest.length < fuel := by
      rw [hk] at hfuel
      rw [rest_advance hopen]
      simp only [List.length_append, List.length_cons] at hfuel ⊢
      omega
    rw [skipWithin_object hopen]
    exact ih _ (rest_advance hopen) hlength hlength

theorem skipsPart_item {isFirst : Bool} {t : Tree} {ts : List Tree}
    {before after value items : List Char} (hbefore : IsBlanks before) (hafter : IsBlanks after)
    (hvalue : Written (.value t) value) (hitems : Written (.items false ts) items)
    (ihvalue : SkipsPart (.value t) value) (ihitems : SkipsPart (.items false ts) items) :
    SkipsPart (.items isFirst (t :: ts))
      (before ++ (comma isFirst ++ (after ++ (value ++ items)))) := by
  rintro stack (_ | fuel₁) fuel₂ k rest hk hfuel₁ hfuel₂
  · exact absurd hfuel₁ (Nat.not_lt_zero _)
  · obtain ⟨c, more, rfl, hblank, hc, -⟩ := hvalue.exists_cons
    simp only [List.append_assoc] at hk
    obtain ⟨blanks, k₁, hblanks, hk₁, hle, hstep⟩ :=
      skipToValue_item hbefore hafter hblank hc hk fuel₁ stack
    rw [skipFrom_of_value hstep]
    obtain ⟨fuel₁', fuel₂', k₂, hgoes, hk₂, hfuel₁', hfuel₂'⟩ :=
      ihvalue (.list :: stack) hblanks hk₁ (hitems.ends_items rest)
        (Nat.lt_of_le_of_lt hle hfuel₂)
    rw [← hk₂] at hfuel₁' hfuel₂'
    rw [hgoes]
    exact ihitems stack hk₂ hfuel₁' hfuel₂'

theorem skipsPart_member {isFirst : Bool} {name : List UInt16} {t : Tree} {ms : List Member}
    {before after key beforeColon afterColon value members : List Char}
    (hbefore : IsBlanks before) (hafter : IsBlanks after) (hkey : Quoted name key)
    (hbeforeColon : IsBlanks beforeColon) (hafterColon : IsBlanks afterColon)
    (hmembers : Written (.members false ms) members) (ihvalue : SkipsPart (.value t) value)
    (ihmembers : SkipsPart (.members false ms) members) :
    SkipsPart (.members isFirst ((name, t) :: ms)) (before ++ (comma isFirst ++ (after ++ (key ++
      (beforeColon ++ ':' :: (afterColon ++ (value ++ members))))))) := by
  rintro stack (_ | fuel₁) fuel₂ k rest hk hfuel₁ hfuel₂
  · exact absurd hfuel₁ (Nat.not_lt_zero _)
  · simp only [List.append_assoc, List.cons_append] at hk
    -- Past the key to the value, past the value, and on with the brackets that were there before.
    obtain ⟨k₁, hk₁, hstep⟩ :=
      skipToValue_member hbefore hafter hkey hbeforeColon hk fuel₁ stack
    have hlt : k₁.rest.length < fuel₂ := by
      rw [hk] at hfuel₂
      rw [hk₁]
      simp only [List.length_append, List.length_cons] at hfuel₂ ⊢
      omega
    rw [skipFrom_of_value hstep]
    obtain ⟨fuel₁', fuel₂', k₂, hgoes, hk₂, hfuel₁', hfuel₂'⟩ :=
      ihvalue (.object :: stack) hafterColon hk₁ (hmembers.ends_members rest) hlt
    rw [← hk₂] at hfuel₁' hfuel₂'
    rw [hgoes]
    exact ihmembers stack hk₂ hfuel₁' hfuel₂'

/-- How the reader goes on behind any part, by induction on how its text is written. -/
theorem skipsPart {part : Part} {text : List Char} (h : Written part text) :
    SkipsPart part text := by
  induction h with
  | null => exact skipsPart_simple .null (by simp) (by simp)
  | yes => exact skipsPart_simple .yes (by simp) (by simp)
  | no => exact skipsPart_simple .no (by simp) (by simp)
  | number hnumber => exact skipsPart_simple (.number hnumber) (by simp) (by simp)
  | text hquoted => exact skipsPart_simple (.text hquoted) (by simp) (by simp)
  | @list ts _ _ ih => exact @skipsPart_list ts _ ih
  | @object ms _ _ ih => exact @skipsPart_object ms _ ih
  | noItem hblanks =>
    exact fun _ _ _ _ _ hk hfuel₁ hfuel₂ => goesOn_list_end hblanks hk hfuel₁ hfuel₂ _ _
  | item hbefore hafter hvalue hitems ihvalue ihitems =>
    exact skipsPart_item hbefore hafter hvalue hitems ihvalue ihitems
  | noMember hblanks =>
    exact fun _ _ _ _ _ hk hfuel₁ hfuel₂ => goesOn_object_end hblanks hk hfuel₁ hfuel₂ _ _
  | member hbefore hafter hkey hbeforeColon hafterColon _ hmembers ihvalue ihmembers =>
    exact skipsPart_member hbefore hafter hkey hbeforeColon hafterColon hmembers ihvalue ihmembers

/-- Past a value, wherever it stands. -/
theorem passes_skipValue {t : Tree} {text : List Char} (h : Written (.value t) text) {k : Cursor}
    {blanks rest : List Char} (hblanks : IsBlanks blanks)
    (hk : k.rest = blanks ++ (text ++ rest)) (hrest : Ends rest) : Passes k.skipValue rest := by
  have hfuel : k.rest.length < 2 * k.rest.length + 2 := by omega
  obtain ⟨fuel₁, fuel₂, k', hgoes, hk', hfuel₁, -⟩ := skipsPart h [] hblanks hk hrest hfuel
  obtain _ | fuel₁ := fuel₁
  · exact absurd hfuel₁ (Nat.not_lt_zero _)
  · rw [skipValue, hgoes]
    exact ⟨k', rfl, hk'⟩

end GraphFolding.Json.Cursor
