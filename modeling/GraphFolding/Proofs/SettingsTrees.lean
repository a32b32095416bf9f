/-
Values of settings as they are read.

What a reader of settings makes of a value depends on the value only, wherever it stands:

* `Json.Stands` — a value stands at a cursor, before the rest of the text;
* `Json.Tree.asText?`, `Json.Tree.asNesting?` and so on — what is made of a value;
* `Group.ofTree?` — what is made of the members of a group, or of a list in their place;
* `Json.Cursor.gives_group` — a group is read so.
-/
import GraphFolding.Settings.FromJson
import GraphFolding.Proofs.JsonSkipping
namespace GraphFolding

open Data

/-- The nearest 32-bit number. -/
def Data.Numeral.toLength : Numeral → Binary
  | .natural n => Format.single.round false n 1
  | .negative n => Format.single.round true n 1
  | .real x => x.convert .single

namespace Json

/-! ### What is made of a value -/

namespace Tree

/-- A string. -/
def asText? : Tree → Option String
  | .text us => textOf? us
  | _ => none

/-- A string or null. -/
def asOptionalText? : Tree → Option (Option String)
  | .null => some none
  | t => t.asText?.map some

/-- A number. -/
def asNumeral? : Tree → Option Numeral
  | .number literal => numeralOf? literal
  | _ => none

/-- A natural number. -/
def asCount? (t : Tree) : Option Nat :=
  t.asNumeral?.bind fun
    | .natural n => some n
    | _ => none

/-- A length. -/
def asLength? (t : Tree) : Option Binary := t.asNumeral?.map Numeral.toLength

/-- A list of strings. -/
def asTexts? : Tree → Option (List String)
  | .list ts => ts.mapM asText?
  | _ => none

/-- Whether a value stands for nothing: null, or leniently an object without members. -/
def isUnit (isLenient : Bool) : Tree → Bool
  | .null => true
  | .object [] => isLenient
  | _ => false

/-- A word for the nesting of clusters, alone or as the only key of an object whose value stands
for nothing. -/
def asNesting? (isLenient : Bool) : Tree → Option Nesting
  | .text us => (textOf? us).bind Nesting.ofWord?
  | .object [(word, t)] =>
    if t.isUnit isLenient then (textOf? word).bind Nesting.ofWord? else none
  | _ => none

theorem asNesting?_object_cons (isLenient : Bool) (name : List UInt16) (t : Tree)
    (ms : List Member) : (object ((name, t) :: ms)).asNesting? isLenient =
      if ms.isEmpty && t.isUnit isLenient then (textOf? name).bind Nesting.ofWord? else none := by
  cases ms <;> rfl

end Tree

/-! ### Values at a cursor -/

/-- A value stands at a cursor, blanks apart, before a rest that may follow it. -/
def Stands (t : Tree) (k : Cursor) (rest : List Char) : Prop :=
  ∃ blanks text, IsBlanks blanks ∧ Written (.value t) text ∧ k.rest = blanks ++ (text ++ rest) ∧
    Ends rest

theorem Stands.starts {t : Tree} {k : Cursor} {rest : List Char} (h : Stands t k rest) :
    ∃ c more, k.skipBlanks.rest = c :: more ∧ t.Starts c := by
  obtain ⟨blanks, text, hblanks, htext, hk, -⟩ := h
  obtain ⟨c, more, rfl, hblank, -, -⟩ := htext.exists_cons
  obtain ⟨c', more', heq, hc⟩ := htext.starts
  obtain ⟨rfl, rfl⟩ := List.cons.inj heq
  exact ⟨c, more ++ rest, Cursor.rest_skipBlanks_cons hblanks hk hblank, hc⟩

theorem Stands.skipBlanks {t : Tree} {k : Cursor} {rest : List Char} (h : Stands t k rest) :
    Stands t k.skipBlanks rest := by
  obtain ⟨blanks, text, hblanks, htext, hk, hrest⟩ := h
  have hvalue := htext
  obtain ⟨c, more, rfl, hblank, -, -⟩ := htext.exists_cons
  exact ⟨[], _, isBlanks_nil, hvalue, Cursor.rest_skipBlanks_cons hblanks hk hblank, hrest⟩

theorem Stands.text {us : List UInt16} {k : Cursor} {rest : List Char}
    (h : Stands (.text us) k rest) :
    ∃ body, StringBody us body ∧ k.skipBlanks.rest = '\x22' :: (body ++ '\x22' :: rest) := by
  obtain ⟨blanks, _, hblanks, hwritten, hk, -⟩ := h
  cases hwritten with
  | text hquoted =>
    obtain ⟨body, rfl, hbody⟩ := hquoted
    rw [List.cons_append, List.append_assoc] at hk
    exact ⟨body, hbody, Cursor.rest_skipBlanks_cons hblanks hk rfl⟩

theorem Stands.list {ts : List Tree} {k : Cursor} {rest : List Char}
    (h : Stands (.list ts) k rest) : ∃ inner, Written (.items true ts) inner ∧
      k.skipBlanks.rest = '[' :: (inner ++ ']' :: rest) := by
  obtain ⟨blanks, _, hblanks, hwritten, hk, -⟩ := h
  cases hwritten with
  | @list _ inner hitems =>
    rw [List.cons_append, List.append_assoc] at hk
    exact ⟨inner, hitems, Cursor.rest_skipBlanks_cons hblanks hk rfl⟩

theorem Stands.object {ms : List Member} {k : Cursor} {rest : List Char}
    (h : Stands (.object ms) k rest) : ∃ inner, Written (.members true ms) inner ∧
      k.skipBlanks.rest = '\x7b' :: (inner ++ '\x7d' :: rest) := by
  obtain ⟨blanks, _, hblanks, hwritten, hk, -⟩ := h
  cases hwritten with
  | @object _ inner hmembers =>
    rw [List.cons_append, List.append_assoc] at hk
    exact ⟨inner, hmembers, Cursor.rest_skipBlanks_cons hblanks hk rfl⟩

namespace Cursor

/-- The first item of several: it stands at the cursor after `nextItem`. -/
theorem gives_nextItem_stands {isFirst : Bool} {t : Tree} {ts : List Tree} {text : List Char}
    (h : Written (.items isFirst (t :: ts)) text) {k : Cursor} {rest : List Char}
    (hk : k.rest = text ++ ']' :: rest) : ∃ items k', Written (.items false ts) items ∧
      k.nextItem isFirst = .ok (true, k') ∧ Stands t k' (items ++ ']' :: rest) := by
  cases h with
  | @item _ _ _ before after value items hbefore hafter hvalue hitems =>
    obtain ⟨c, more, rfl, hblank, hc, -⟩ := hvalue.exists_cons
    simp only [List.append_assoc] at hk
    obtain ⟨k', hnext, hk'⟩ := gives_nextItem hbefore hafter hblank hc hk
    exact ⟨items, k', hitems, hnext, [], _, isBlanks_nil, hvalue, hk', hitems.ends_items rest⟩

/-- The first member of several: its value stands behind its name and the colon. -/
theorem gives_nextKey_stands {isFirst : Bool} {name : List UInt16} {t : Tree} {ms : List Member}
    {text : List Char} (h : Written (.members isFirst ((name, t) :: ms)) text) {k : Cursor}
    {rest : List Char} (hk : k.rest = text ++ '\x7d' :: rest) :
    ∃ members behindKey, Written (.members false ms) members ∧
      Gives (k.nextKey isFirst) ((textOf? name).map some) behindKey ∧
      ∀ k' : Cursor, k'.rest = behindKey → ∃ k'', k'.expectColon = .ok k'' ∧
        Stands t k'' (members ++ '\x7d' :: rest) := by
  cases h with
  | @member _ _ _ _ before after key beforeColon afterColon value members hbefore hafter hkey
      hbeforeColon hafterColon hvalue hmembers =>
    simp only [List.append_assoc, List.cons_append] at hk
    refine ⟨members, _, hmembers, gives_nextKey hbefore hafter hkey hk, fun k' hk' => ?_⟩
    obtain ⟨k'', hcolon, hk''⟩ := passes_expectColon hbeforeColon hk'
    exact ⟨k'', hcolon, afterColon, value, hafterColon, hvalue, hk'', hmembers.ends_members rest⟩

/-! ### Readers of values -/

section

variable {t : Tree} {k : Cursor} {rest : List Char}

theorem gives_text (h : Stands t k rest) : Gives k.text t.asText? rest := by
  by_cases htext : ∃ us, t = .text us
  · obtain ⟨us, rfl⟩ := htext
    obtain ⟨body, hbody, hquote⟩ := h.text
    simp only [text, hquote]
    exact gives_string hbody (rest_advance hquote)
  · obtain ⟨c, more, hnext, hc⟩ := h.starts
    have hnone : t.asText? = none := by
      cases t with
      | text us => exact absurd ⟨us, rfl⟩ htext
      | _ => rfl
    rw [hnone]
    simp only [text]
    split
    · exact gives_error _
    · rename_i heq
      obtain ⟨rfl, -⟩ := List.cons.inj (hnext.symm.trans heq)
      exact absurd hc.exists_text htext
    · exact mismatch_eq_error _ _

theorem passes_null (h : Stands .null k rest) :
    Passes (expectWord "ull".toList k.skipBlanks.advance) rest := by
  obtain ⟨blanks, _, hblanks, hwritten, hk, -⟩ := h
  cases hwritten with
  | null => exact passes_expectWord _ (rest_advance (rest_skipBlanks_cons hblanks hk rfl))

theorem gives_optionalText (h : Stands t k rest) :
    Gives k.optionalText t.asOptionalText? rest := by
  obtain ⟨c, more, hnext, hc⟩ := h.starts
  by_cases hnull : t = .null
  · subst hnull
    obtain rfl : c = 'n' := hc
    simp only [optionalText, hnext]
    exact (passes_null h).bind fun k' hk' => gives_ok hk'
  · have hsome : t.asOptionalText? = t.asText?.map some := by
      cases t with
      | null => exact absurd rfl hnull
      | _ => rfl
    rw [hsome]
    simp only [optionalText]
    split
    · rename_i heq
      obtain ⟨rfl, -⟩ := List.cons.inj (hnext.symm.trans heq)
      exact absurd hc.eq_null hnull
    · exact (gives_text h.skipBlanks).map some

theorem gives_number (h : Stands t k rest) (expected : Expected) :
    Gives (k.number expected) t.asNumeral? rest := by
  obtain ⟨c, more, hnext, hc⟩ := h.starts
  by_cases hnumber : ∃ literal, t = .number literal
  · obtain ⟨literal, rfl⟩ := hnumber
    obtain ⟨blanks, _, hblanks, hwritten, hk, hrest⟩ := h
    cases hwritten with
    | number hnumber =>
      obtain ⟨c', more', heq, hblank, -, -⟩ := (Written.number hnumber).exists_cons
      have hliteral : k.skipBlanks.rest = literal ++ rest :=
        rest_skipBlanks hblanks hk (by simp [heq, hblank])
      simp only [number]
      rcases hnumber with hunsigned | ⟨unsigned, rfl, hunsigned⟩
      · obtain ⟨digit, more, rfl, hdigit⟩ := hunsigned.exists_cons
        split
        · rename_i heq
          exact absurd (hliteral.symm.trans heq) (List.cons_ne_nil _ _)
        · rename_i heq
          obtain ⟨rfl, -⟩ := List.cons.inj (hliteral.symm.trans heq)
          exact absurd hdigit (by decide)
        · rename_i heq
          obtain ⟨rfl, -⟩ := List.cons.inj (hliteral.symm.trans heq)
          rw [if_pos hdigit]
          exact gives_numeral hunsigned _ rest hliteral hrest
      · rw [hliteral]
        exact gives_numeral_negative hunsigned _ rest (rest_advance hliteral) hrest
  · have hnone : t.asNumeral? = none := by
      cases t with
      | number literal => exact absurd ⟨literal, rfl⟩ hnumber
      | _ => rfl
    rw [hnone]
    simp only [number]
    split
    · exact gives_error _
    · rename_i heq
      obtain ⟨rfl, -⟩ := List.cons.inj (hnext.symm.trans heq)
      exact absurd (hc.exists_number (.inl rfl)) hnumber
    · rename_i heq
      obtain ⟨rfl, -⟩ := List.cons.inj (hnext.symm.trans heq)
      rw [if_neg fun hdigit => hnumber (hc.exists_number (.inr hdigit))]
      exact mismatch_eq_error _ _

theorem gives_count (h : Stands t k rest) : Gives k.count t.asCount? rest := by
  refine (gives_number h .count).bind fun n k' hk' => ?_
  cases n with
  | natural n => exact gives_ok hk'
  | negative n => exact gives_error _
  | real x => exact gives_error _

theorem gives_length (h : Stands t k rest) : Gives k.length t.asLength? rest := by
  rw [Tree.asLength?, Option.map_eq_bind]
  refine (gives_number h .length).bind fun n k' hk' => ?_
  cases n with
  | natural n => exact gives_ok hk'
  | negative n => exact gives_ok hk'
  | real x => exact gives_ok hk'

theorem gives_textsWithin {ts : List Tree} : ∀ {isFirst : Bool} {text : List Char} {fuel : Nat}
    {k : Cursor}, Written (.items isFirst ts) text → k.rest = text ++ ']' :: rest →
    ts.length < fuel → Gives (textsWithin fuel isFirst k) (ts.mapM Tree.asText?) rest := by
  induction ts with
  | nil =>
    rintro isFirst text (_ | fuel) k h hk hfuel
    · exact absurd hfuel (Nat.not_lt_zero _)
    · cases h with
      | noItem hblanks =>
        exact (gives_nextItem_end hblanks hk isFirst).bind_some fun k' hk' => gives_ok hk'
  | cons t ts ih =>
    rintro isFirst text (_ | fuel) k h hk hfuel
    · exact absurd hfuel (Nat.not_lt_zero _)
    · obtain ⟨items, k', hitems, hnext, hstands⟩ := gives_nextItem_stands h hk
      rw [textsWithin, hnext, List.mapM_cons]
      exact (gives_text hstands).bind fun s k'' hk'' =>
        (ih hitems hk'' (by simpa using hfuel)).bind fun more k₃ hk₃ => gives_ok hk₃

theorem length_le_of_items {ts : List Tree} : ∀ {isFirst : Bool} {text : List Char},
    Written (.items isFirst ts) text → ts.length ≤ text.length := by
  induction ts with
  | nil => exact fun _ => Nat.zero_le _
  | cons t ts ih =>
    intro isFirst text h
    cases h with
    | item _ _ hvalue hitems =>
      obtain ⟨c, more, rfl, -, -, -⟩ := hvalue.exists_cons
      have hle := ih hitems
      simp only [List.length_append, List.length_cons]
      omega

theorem gives_texts (h : Stands t k rest) : Gives k.texts t.asTexts? rest := by
  obtain ⟨c, more, hnext, hc⟩ := h.starts
  by_cases hlist : ∃ ts, t = .list ts
  · obtain ⟨ts, rfl⟩ := hlist
    obtain ⟨inner, hitems, hopen⟩ := h.list
    have hle := length_le_of_items hitems
    simp only [texts, hopen]
    refine gives_textsWithin hitems (rest_advance hopen) ?_
    simp only [List.length_cons, List.length_append]
    omega
  · have hnone : t.asTexts? = none := by
      cases t with
      | list ts => exact absurd ⟨ts, rfl⟩ hlist
      | _ => rfl
    rw [hnone]
    simp only [texts]
    split
    · exact gives_error _
    · rename_i heq
      obtain ⟨rfl, -⟩ := List.cons.inj (hnext.symm.trans heq)
      exact absurd hc.exists_list hlist
    · exact mismatch_eq_error _ _

/-! ### The nesting of clusters -/

theorem gives_nestingWord {us : List UInt16} {body : List Char} (hbody : StringBody us body)
    (hk : k.rest = body ++ '\x22' :: rest) :
    Gives k.nestingWord ((textOf? us).bind Nesting.ofWord?) rest := by
  refine (gives_string hbody hk).bind fun word k' hk' => ?_
  simp only [Nesting.ofWord]
  rcases Nesting.ofWord? word with _ | nesting
  · exact gives_error _
  · exact gives_ok hk'

/-- Null, or a failure. -/
theorem passes_unit_or (h : Stands t k rest) :
    (t = .null ∧ Passes k.unit rest) ∨ (t ≠ .null ∧ ∃ e, k.unit = .error e) := by
  obtain ⟨c, more, hnext, hc⟩ := h.starts
  by_cases hnull : t = .null
  · subst hnull
    obtain rfl : c = 'n' := hc
    refine .inl ⟨rfl, ?_⟩
    simp only [unit, hnext]
    exact passes_null h
  · refine .inr ⟨hnull, ?_⟩
    simp only [unit]
    split
    · exact ⟨_, rfl⟩
    · rename_i heq
      obtain ⟨rfl, -⟩ := List.cons.inj (hnext.symm.trans heq)
      exact absurd hc.eq_null hnull
    · exact mismatch_eq_error _ _

/-- Strictly, only null stands for nothing. -/
theorem isUnit_false_of_ne {t : Tree} (h : t ≠ .null) : t.isUnit false = false := by
  cases t with
  | null => exact absurd rfl h
  | object ms => cases ms <;> rfl
  | _ => rfl

/-- The nesting that an object stands for, read behind its opening brace. -/
theorem gives_nestingObject {ms : List Member} {inner : List Char}
    (h : Written (.members true ms) inner) (hk : k.rest = inner ++ '\x7d' :: rest) :
    Gives (do
        let (nesting, k) ← k.nestingKey
        let k := (← (← k.expectColon).unit).skipBlanks
        match k.rest with
        | [] => k.failHere .endInObject
        | '\x7d' :: _ => return (nesting, k.advance)
        | _ => k.failHere .expectedValue)
      ((Tree.object ms).asNesting? false) rest := by
  cases h with
  | noMember hblanks =>
    have hclose := rest_skipBlanks_cons hblanks hk rfl
    refine gives_bind_of_error ?_
    simp only [nestingKey, hclose]
    exact ⟨_, rfl⟩
  | @member _ name t ms before after key beforeColon afterColon value members hbefore hafter hkey
      hbeforeColon hafterColon hvalue hmembers =>
    obtain ⟨body, rfl, hbody⟩ := hkey
    simp only [comma, if_pos, List.nil_append, List.append_assoc, List.cons_append] at hk
    rw [← List.append_assoc] at hk
    have hquote := rest_skipBlanks_cons (hbefore.append hafter) hk rfl
    -- The word is decoded as it is read, so that a wrong one fails before what follows it.
    have hkey : Gives k.nestingKey ((textOf? name).bind Nesting.ofWord?)
        (beforeColon ++ ':' :: (afterColon ++ (value ++ (members ++ '\x7d' :: rest)))) := by
      simp only [nestingKey, hquote]
      exact gives_nestingWord hbody (rest_advance hquote)
    rw [Tree.asNesting?_object_cons]
    generalize (textOf? name).bind Nesting.ofWord? = found? at hkey ⊢
    rcases found? with _ | nesting
    · rw [ite_self]
      exact gives_bind_of_error hkey
    refine hkey.bind_some fun k₁ hk₁ => ?_
    refine (passes_expectColon hbeforeColon hk₁).bind fun k₂ hk₂ => ?_
    have hstands : Stands t k₂ (members ++ '\x7d' :: rest) :=
      ⟨afterColon, value, hafterColon, hvalue, hk₂, hmembers.ends_members rest⟩
    rcases passes_unit_or hstands with ⟨rfl, hunit⟩ | ⟨hnull, hunit⟩
    · refine hunit.bind fun k₃ hk₃ => ?_
      -- A second member fails, whatever it is.
      cases hmembers with
      | noMember hblanks =>
        have hclose := rest_skipBlanks_cons hblanks hk₃ rfl
        simp only [hclose]
        exact gives_ok (rest_advance hclose)
      | member hbefore _ _ _ _ _ _ =>
        rw [List.append_assoc] at hk₃
        have hcomma := rest_skipBlanks_cons hbefore hk₃ rfl
        simp only [hcomma]
        exact gives_error _
    · rw [isUnit_false_of_ne hnull, Bool.and_false, if_neg Bool.false_ne_true]
      exact gives_bind_of_error hunit

theorem gives_nesting (h : Stands t k rest) : Gives k.nesting (t.asNesting? false) rest := by
  obtain ⟨c, more, hnext, hc⟩ := h.starts
  by_cases htext : ∃ us, t = .text us
  · obtain ⟨us, rfl⟩ := htext
    obtain ⟨body, hbody, hquote⟩ := h.text
    simp only [nesting, hquote]
    exact gives_nestingWord hbody (rest_advance hquote)
  by_cases hobject : ∃ ms, t = .object ms
  · obtain ⟨ms, rfl⟩ := hobject
    obtain ⟨inner, hmembers, hopen⟩ := h.object
    simp only [nesting, hopen]
    exact gives_nestingObject hmembers (rest_advance hopen)
  · have hnone : t.asNesting? false = none := by
      cases t with
      | text us => exact absurd ⟨us, rfl⟩ htext
      | object ms => exact absurd ⟨ms, rfl⟩ hobject
      | _ => rfl
    rw [hnone]
    simp only [nesting]
    split
    · exact gives_error _
    · rename_i heq
      obtain ⟨rfl, -⟩ := List.cons.inj (hnext.symm.trans heq)
      exact absurd hc.exists_text htext
    · rename_i heq
      obtain ⟨rfl, -⟩ := List.cons.inj (hnext.symm.trans heq)
      exact absurd hc.exists_object hobject
    · exact gives_error _

end

end Cursor
end Json

/-! ### Groups -/

open Json

namespace Group

variable {κ σ : Type} [DecidableEq κ]

/-- A value changed by members, after the keys seen before; members of other names do not count. -/
def applyMembers? (g : Group κ σ) (decode : κ → Tree → Option (σ → σ)) :
    List κ → σ → List Member → Option σ
  | _, state, [] => some state
  | seen, state, (name, t) :: ms =>
    (textOf? name).bind fun name =>
      match g.key? name with
      | none => applyMembers? g decode seen state ms
      | some key =>
        if seen.contains key then none
        else (decode key t).bind fun change =>
          applyMembers? g decode (key :: seen) (change state) ms

/-- A value changed by the items of a list, in the order of the keys. -/
def applyItems? (decode : κ → Tree → Option (σ → σ)) : List κ → σ → List Tree → Option σ
  | _, state, [] => some state
  | [], _, _ :: _ => none
  | key :: keys, state, t :: ts =>
    (decode key t).bind fun change => applyItems? decode keys (change state) ts

/-- What is made of the value of a group: an object, or a list in the order of the keys. -/
def ofTree? (g : Group κ σ) (decode : κ → Tree → Option (σ → σ)) : Tree → Option σ
  | .object ms => g.applyMembers? decode [] g.defaults ms
  | .list ts => applyItems? decode g.keys g.defaults ts
  | _ => none

end Group

theorem Json.Stands.passes_skipValue {t : Tree} {k : Cursor} {rest : List Char}
    (h : Stands t k rest) : Passes k.skipValue rest := by
  obtain ⟨blanks, text, hblanks, htext, hk, hrest⟩ := h
  exact Cursor.passes_skipValue htext hblanks hk hrest

namespace Json.Cursor

theorem duplicate_eq_error {α : Type} (k : Cursor) (name : String) :
    ∃ e, (k.duplicate name : Except Error α) = .error e := ⟨_, rfl⟩

/-- Where a further item stands, a list does not end. -/
theorem listEnd_eq_error {k k' : Cursor} {isFirst : Bool}
    (h : k.nextItem isFirst = .ok (true, k')) : ∃ e, k.listEnd = .error e := by
  simp only [listEnd]
  split
  · exact ⟨_, rfl⟩
  · rename_i heq
    simp only [nextItem, heq] at h
    cases h
  · exact ⟨_, rfl⟩
  · exact ⟨_, rfl⟩

section

variable {κ σ : Type} [DecidableEq κ] {g : Group κ σ}
  {read : κ → Cursor → Except Error ((σ → σ) × Cursor)} {decode : κ → Tree → Option (σ → σ)}
  {rest : List Char}

theorem gives_groupMembers
    (hread : ∀ key t k rest, Stands t k rest → Gives (read key k) (decode key t) rest)
    {ms : List Member} : ∀ {isFirst : Bool} {seen : List κ} {state : σ} {text : List Char}
      {fuel : Nat} {k : Cursor}, Written (.members isFirst ms) text →
      k.rest = text ++ '\x7d' :: rest → ms.length < fuel →
      Gives (groupMembers g read fuel isFirst seen state k)
        (g.applyMembers? decode seen state ms) rest := by
  induction ms with
  | nil =>
    rintro isFirst seen state text (_ | fuel) k h hk hfuel
    · exact absurd hfuel (Nat.not_lt_zero _)
    · cases h with
      | noMember hblanks =>
        exact (gives_nextKey_end hblanks hk isFirst).bind_some fun k' hk' => gives_ok hk'
  | cons m ms ih =>
    rintro isFirst seen state text (_ | fuel) k h hk hfuel
    · exact absurd hfuel (Nat.not_lt_zero _)
    · obtain ⟨name, t⟩ := m
      rw [List.length_cons, Nat.add_lt_add_iff_right] at hfuel
      obtain ⟨members, behindKey, hmembers, hname, hvalue⟩ := gives_nextKey_stands h hk
      rw [groupMembers, Group.applyMembers?]
      generalize textOf? name = text? at hname ⊢
      rcases text? with _ | text
      · exact gives_bind_of_error hname
      refine hname.bind_some fun k₁ hk₁ => ?_
      obtain ⟨k₂, hcolon, hstands⟩ := hvalue k₁ hk₁
      rcases hkey : g.key? text with _ | key
      · simp only [hkey, hcolon, Option.bind_some]
        exact hstands.passes_skipValue.bind fun k₃ hk₃ => ih hmembers hk₃ hfuel
      · simp only [hkey, hcolon, Option.bind_some]
        split_ifs
        · exact duplicate_eq_error _ _
        · exact (hread key t k₂ _ hstands).bind fun change k₃ hk₃ => ih hmembers hk₃ hfuel

theorem gives_listEnd {blanks : List Char} (hblanks : IsBlanks blanks) {k : Cursor}
    (hk : k.rest = blanks ++ ']' :: rest) : Passes k.listEnd rest := by
  have hend := rest_skipBlanks_cons hblanks hk rfl
  simp only [listEnd, hend]
  exact ⟨_, rfl, rest_advance hend⟩

omit [DecidableEq κ] in
theorem gives_groupItems
    (hread : ∀ key t k rest, Stands t k rest → Gives (read key k) (decode key t) rest)
    {ts : List Tree} : ∀ {keys : List κ} {isFirst : Bool} {state : σ} {text : List Char}
      {k : Cursor}, Written (.items isFirst ts) text → k.rest = text ++ ']' :: rest →
      Gives (groupItems read keys isFirst state k) (Group.applyItems? decode keys state ts)
        rest := by
  induction ts with
  | nil =>
    intro keys isFirst state text k h hk
    cases h with
    | noItem hblanks =>
      rcases keys with _ | ⟨key, keys⟩
      · exact (gives_listEnd hblanks hk).bind fun k' hk' => gives_ok hk'
      · exact (gives_nextItem_end hblanks hk isFirst).bind_some fun k' hk' => gives_ok hk'
  | cons t ts ih =>
    intro keys isFirst state text k h hk
    obtain ⟨items, k', hitems, hnext, hstands⟩ := gives_nextItem_stands h hk
    rcases keys with _ | ⟨key, keys⟩
    · exact gives_bind_of_error (listEnd_eq_error hnext)
    · rw [groupItems, hnext, Group.applyItems?]
      exact (hread key t k' _ hstands).bind fun change k'' hk'' => ih hitems hk''

theorem length_le_of_members {ms : List Member} : ∀ {isFirst : Bool} {text : List Char},
    Written (.members isFirst ms) text → ms.length ≤ text.length := by
  induction ms with
  | nil => exact fun _ => Nat.zero_le _
  | cons m ms ih =>
    intro isFirst text h
    cases h with
    | member _ _ _ _ _ _ hmembers =>
      have hle := ih hmembers
      simp only [List.length_append, List.length_cons]
      omega

/-- A group, whose values are read as they are decoded. -/
theorem gives_group
    (hread : ∀ key t k rest, Stands t k rest → Gives (read key k) (decode key t) rest)
    {t : Tree} {k : Cursor} (h : Stands t k rest) :
    Gives (k.group g read) (g.ofTree? decode t) rest := by
  obtain ⟨c, more, hnext, hc⟩ := h.starts
  by_cases hobject : ∃ ms, t = .object ms
  · obtain ⟨ms, rfl⟩ := hobject
    obtain ⟨inner, hmembers, hopen⟩ := h.object
    have hle := length_le_of_members hmembers
    simp only [group, hopen]
    refine gives_groupMembers hread hmembers (rest_advance hopen) ?_
    simp only [List.length_cons, List.length_append]
    omega
  by_cases hlist : ∃ ts, t = .list ts
  · obtain ⟨ts, rfl⟩ := hlist
    obtain ⟨inner, hitems, hopen⟩ := h.list
    simp only [group, hopen]
    exact gives_groupItems hread hitems (rest_advance hopen)
  · have hnone : g.ofTree? decode t = none := by
      cases t with
      | object ms => exact absurd ⟨ms, rfl⟩ hobject
      | list ts => exact absurd ⟨ts, rfl⟩ hlist
      | _ => rfl
    rw [hnone]
    simp only [group]
    split
    · exact gives_error _
    · rename_i heq
      obtain ⟨rfl, -⟩ := List.cons.inj (hnext.symm.trans heq)
      exact absurd hc.exists_object hobject
    · rename_i heq
      obtain ⟨rfl, -⟩ := List.cons.inj (hnext.symm.trans heq)
      exact absurd hc.exists_list hlist
    · exact mismatch_eq_error _ _

end

end Json.Cursor
end GraphFolding
