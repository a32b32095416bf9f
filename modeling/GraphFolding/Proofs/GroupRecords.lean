/-
Groups of settings as records.

Each key of a group has a value of its own in the record, and the members of an object set these
values one by one:

* `Group.Fields` — the values of a group, key by key, with the laws of getting and setting;
* `Group.Fields.isSome_applyMembers?_iff` — which members can be applied to a record;
* `Group.Fields.get_applyMembers?` — the value of a key afterwards: that of its member, or else the
  one before.
-/
import GraphFolding.Proofs.SettingsTrees
namespace GraphFolding

open Json

namespace Group

variable {κ σ : Type}

/-- The name of a key as units. -/
def keyUnits (g : Group κ σ) (key : κ) : List UInt16 := units (g.keyName key)

/-- The values of a group, one for each key. -/
structure Fields (g : Group κ σ) where
  /-- What the value of a key is. -/
  Value : κ → Type
  get : (key : κ) → σ → Value key
  set : (key : κ) → Value key → σ → σ
  get_set : ∀ key v s, get key (set key v s) = v
  get_set_of_ne : ∀ {key other}, other ≠ key → ∀ v s, get other (set key v s) = get other s
  ext : ∀ {s s'}, (∀ key, get key s = get key s') → s = s'
  key?_keyName : ∀ key, g.key? (g.keyName key) = some key

namespace Fields

variable {g : Group κ σ}

/-- The change that the value of a key makes. -/
def change? (F : g.Fields) (decode? : (key : κ) → Tree → Option (F.Value key)) (key : κ)
    (t : Tree) : Option (σ → σ) :=
  (decode? key t).map (F.set key)

/-- A key and its name as units belong together. -/
theorem key?_eq_some_iff (F : g.Fields) {name : String} {key : κ} :
    g.key? name = some key ↔ units name = g.keyUnits key := by
  rw [keyUnits, units_injective.eq_iff]
  constructor
  · intro h
    simpa [Group.key?, eq_comm] using List.find?_some h
  · rintro rfl
    exact F.key?_keyName key

theorem keyUnits_injective (F : g.Fields) : Function.Injective g.keyUnits := fun key _ heq =>
  Option.some_inj.mp ((F.key?_keyName key).symm.trans (F.key?_eq_some_iff.mpr heq))

/-- A name is no text, or a text but that of no key, or that of a key. -/
theorem cases_name (F : g.Fields) (us : List UInt16) : textOf? us = none ∨
    ((textOf? us).isSome ∧ ∀ key, us ≠ g.keyUnits key) ∨ ∃ key, us = g.keyUnits key := by
  rcases htext : textOf? us with _ | name
  · exact .inl rfl
  obtain rfl := textOf?_eq_some_iff.mp htext
  rcases hkey : g.key? name with _ | key
  · refine .inr (.inl ⟨rfl, fun key heq => ?_⟩)
    rw [F.key?_eq_some_iff.mpr heq] at hkey
    cases hkey
  · exact .inr (.inr ⟨key, F.key?_eq_some_iff.mp hkey⟩)

variable [DecidableEq κ] {change : κ → Tree → Option (σ → σ)} {seen : List κ} {state : σ}
  {us : List UInt16} {t : Tree} {ms : List Member}

/-- A member whose name is that of no key does not count. -/
theorem applyMembers?_cons_other (F : g.Fields) (htext : (textOf? us).isSome)
    (hother : ∀ key, us ≠ g.keyUnits key) :
    g.applyMembers? change seen state ((us, t) :: ms) = g.applyMembers? change seen state ms := by
  obtain ⟨name, hname⟩ := Option.isSome_iff_exists.mp htext
  obtain rfl := textOf?_eq_some_iff.mp hname
  rcases hkey : g.key? name with _ | key
  · simp only [Group.applyMembers?, hname, Option.bind_some, hkey]
  · exact absurd (F.key?_eq_some_iff.mp hkey) (hother key)

/-- The member of a key makes its change, unless the key has been seen. -/
theorem applyMembers?_cons_key (F : g.Fields) (key : κ) :
    g.applyMembers? change seen state ((g.keyUnits key, t) :: ms) =
      if seen.contains key then none
      else (change key t).bind fun change' =>
        g.applyMembers? change (key :: seen) (change' state) ms := by
  simp only [Group.applyMembers?, keyUnits, textOf?_units, Option.bind_some, F.key?_keyName]

/-- Only what is made of the values of keys counts. -/
theorem applyMembers?_congr (F : g.Fields) {change' : κ → Tree → Option (σ → σ)}
    (h : ∀ m ∈ ms, ∀ key, m.1 = g.keyUnits key → change key m.2 = change' key m.2) :
    ∀ (seen : List κ) (state : σ),
      g.applyMembers? change seen state ms = g.applyMembers? change' seen state ms := by
  induction ms with
  | nil => exact fun _ _ => rfl
  | cons m ms ih =>
    obtain ⟨us, t⟩ := m
    intro seen state
    have hrest := ih fun m hm => h m (List.mem_cons_of_mem _ hm)
    rcases F.cases_name us with hnone | ⟨htext, hother⟩ | ⟨key, rfl⟩
    · simp only [Group.applyMembers?, hnone, Option.bind_none]
    · rw [F.applyMembers?_cons_other htext hother, F.applyMembers?_cons_other htext hother, hrest]
    · simp only [F.applyMembers?_cons_key, h _ List.mem_cons_self key rfl, hrest]

variable (F : g.Fields) {decode? : (key : κ) → Tree → Option (F.Value key)}

/-- Members with different names can be applied if each of them can: its name is a text and, if it
is that of a key, its value can be decoded. -/
theorem isSome_applyMembers?_iff : ∀ {seen : List κ} {state : σ}, (ms.map Prod.fst).Nodup →
    (∀ key ∈ seen, g.keyUnits key ∉ ms.map Prod.fst) →
    ((g.applyMembers? (F.change? decode?) seen state ms).isSome ↔
      ∀ m ∈ ms, (textOf? m.1).isSome ∧
        ∀ key, m.1 = g.keyUnits key → (decode? key m.2).isSome) := by
  induction ms with
  | nil => simp [applyMembers?]
  | cons m ms ih =>
    obtain ⟨us, t⟩ := m
    intro seen state hnodup hseen
    rw [List.map_cons, List.nodup_cons] at hnodup
    have hlater : ∀ key ∈ seen, g.keyUnits key ∉ ms.map Prod.fst :=
      fun key hkey hmem => hseen key hkey (List.mem_cons_of_mem _ hmem)
    rw [List.forall_mem_cons]
    rcases F.cases_name us with hnone | ⟨htext, hother⟩ | ⟨key, rfl⟩
    · simp [applyMembers?, hnone]
    · rw [F.applyMembers?_cons_other htext hother, ih hnodup.2 hlater]
      exact ⟨fun h => ⟨⟨htext, fun key heq => absurd heq (hother key)⟩, h⟩, And.right⟩
    · have hnew : ¬seen.contains key = true := by
        rw [List.contains_iff_mem]
        exact fun hmem => hseen key hmem List.mem_cons_self
      have hlater' : ∀ other ∈ key :: seen, g.keyUnits other ∉ ms.map Prod.fst :=
        List.forall_mem_cons.mpr ⟨hnodup.1, hlater⟩
      have htext : (textOf? (g.keyUnits key)).isSome := by simp [keyUnits, textOf?_units]
      rw [F.applyMembers?_cons_key, if_neg hnew, change?]
      rcases hvalue : decode? key t with _ | v
      · refine ⟨fun h => absurd h (by simp), fun h => ?_⟩
        have hdecode := h.1.2 key rfl
        rw [hvalue] at hdecode
        cases hdecode
      · rw [Option.map_some, Option.bind_some, ih hnodup.2 hlater']
        refine ⟨fun h => ⟨⟨htext, fun other heq => ?_⟩, h⟩, And.right⟩
        obtain rfl := F.keyUnits_injective heq
        rw [hvalue]
        rfl

/-- The value of a key after members have been applied.  The induction is on the members, of which
none after the first has the key of the first. -/
theorem get_applyMembers? {state' : σ} (key : κ) : ∀ {seen : List κ} {state : σ},
    g.applyMembers? (F.change? decode?) seen state ms = some state' →
    (∀ t, (g.keyUnits key, t) ∈ ms → key ∉ seen ∧ decode? key t = some (F.get key state')) ∧
    ((∀ t, (g.keyUnits key, t) ∉ ms) → F.get key state' = F.get key state) := by
  induction ms with
  | nil =>
    intro seen state h
    obtain rfl := Option.some_inj.mp h
    exact ⟨fun t ht => absurd ht List.not_mem_nil, fun _ => rfl⟩
  | cons m ms ih =>
    obtain ⟨us, t₀⟩ := m
    intro seen state h
    -- A member of another name neither has the key nor changes its value.
    have hskip : ∀ {seen' state₁}, us ≠ g.keyUnits key → (∀ other ∈ seen, other ∈ seen') →
        F.get key state₁ = F.get key state →
        g.applyMembers? (F.change? decode?) seen' state₁ ms = some state' →
        (∀ t, (g.keyUnits key, t) ∈ (us, t₀) :: ms →
          key ∉ seen ∧ decode? key t = some (F.get key state')) ∧
        ((∀ t, (g.keyUnits key, t) ∉ (us, t₀) :: ms) → F.get key state' = F.get key state) := by
      intro seen' state₁ hother hseen hsame happly
      obtain ⟨hset, hkept⟩ := ih happly
      refine ⟨fun t ht => ?_, fun habsent => ?_⟩
      · rcases List.mem_cons.mp ht with heq | hmem
        · exact absurd (Prod.mk.inj heq).1.symm hother
        · exact ⟨fun hmem' => (hset t hmem).1 (hseen key hmem'), (hset t hmem).2⟩
      · rw [hkept fun t hmem => habsent t (List.mem_cons_of_mem _ hmem), hsame]
    rcases F.cases_name us with hnone | ⟨htext, hother⟩ | ⟨key₀, rfl⟩
    · simp [applyMembers?, hnone] at h
    · rw [F.applyMembers?_cons_other htext hother] at h
      exact hskip (hother key) (fun _ hmem => hmem) rfl h
    · rw [F.applyMembers?_cons_key] at h
      split_ifs at h with hnew
      obtain ⟨change, hchange, h⟩ := Option.bind_eq_some_iff.mp h
      obtain ⟨v, hv, rfl⟩ := Option.map_eq_some_iff.mp hchange
      by_cases hsame : key = key₀
      · subst hsame
        -- The key has been seen now, so that it does not come again.
        obtain ⟨hset, hkept⟩ := ih h
        have honce : ∀ t, (g.keyUnits key, t) ∉ ms :=
          fun t hmem => (hset t hmem).1 List.mem_cons_self
        refine ⟨fun t ht => ⟨?_, ?_⟩, fun habsent => absurd List.mem_cons_self (habsent t₀)⟩
        · rwa [List.contains_iff_mem] at hnew
        · rcases List.mem_cons.mp ht with heq | hmem
          · rw [(Prod.mk.inj heq).2, hv, hkept honce, F.get_set]
          · exact absurd hmem (honce t)
      · exact hskip (fun heq => hsame (F.keyUnits_injective heq).symm)
          (fun _ hmem => List.mem_cons_of_mem _ hmem) (F.get_set_of_ne hsame v state) h

end Fields
end Group
end GraphFolding
