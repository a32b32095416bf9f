/-
Fold rules alone, and as part of a settings file.

Alone they are read key by key.  In a settings file their values are read first and decoded
afterwards, which is more lenient in one place: the object around a word for the nesting of
clusters may hold an object without members where null is meant.

* `FoldKey.toOption_decode` — what is made of a value that was read before;
* `Settings.ofTrees?_fold` — the fold rules of a settings file, as a lenient reader sets them;
* `Settings.ofText_eq_fold_iff` — a settings file and its text as fold rules alone agree, except
  about such an object; `Settings.not_forall_ofText_eq_fold` has one.
-/
import GraphFolding.Proofs.SettingsReading
namespace GraphFolding

open Json Data

/-! ### Values that were read before -/

/-- The kinds of a value and of what was read of it. -/
theorem Json.Tree.value?_eq_some {depth : Nat} {t : Tree} {v : Value}
    (h : t.value? depth = some v) :
    (t = .null ∧ v = .null) ∨ (∃ b, t = .bool b ∧ v = .bool b) ∨
    (∃ literal n, t = .number literal ∧ v = .number n ∧ numeralOf? literal = some n) ∨
    (∃ us s, t = .text us ∧ v = .text s ∧ textOf? us = some s) ∨
    (∃ ts vs, t = .list ts ∧ v = .list vs ∧ values? (depth - 1) ts = some vs) ∨
    (∃ ms vs, t = .object ms ∧ v = .object vs ∧ memberValues? (depth - 1) ms = some vs) := by
  cases t with
  | null => exact .inl ⟨rfl, (Option.some_inj.mp h).symm⟩
  | bool b => exact .inr (.inl ⟨b, rfl, (Option.some_inj.mp h).symm⟩)
  | number literal =>
    obtain ⟨n, hn, rfl⟩ := Option.map_eq_some_iff.mp h
    exact .inr (.inr (.inl ⟨literal, n, rfl, rfl, hn⟩))
  | text us =>
    obtain ⟨s, hs, rfl⟩ := Option.map_eq_some_iff.mp h
    exact .inr (.inr (.inr (.inl ⟨us, s, rfl, rfl, hs⟩)))
  | list ts =>
    rw [Tree.value?] at h
    split_ifs at h
    obtain ⟨vs, hvs, rfl⟩ := Option.map_eq_some_iff.mp h
    exact .inr (.inr (.inr (.inr (.inl ⟨ts, vs, rfl, rfl, hvs⟩))))
  | object ms =>
    rw [Tree.value?] at h
    split_ifs at h
    obtain ⟨vs, hvs, rfl⟩ := Option.map_eq_some_iff.mp h
    exact .inr (.inr (.inr (.inr (.inr ⟨ms, vs, rfl, rfl, hvs⟩))))

section

variable {depth : Nat} {t : Tree} {v : Data.Value}

theorem toOption_asText (h : t.value? depth = some v) : v.asText.toOption = t.asText? := by
  rcases Tree.value?_eq_some h with ⟨rfl, rfl⟩ | ⟨b, rfl, rfl⟩ | ⟨literal, n, rfl, rfl, hn⟩ |
    ⟨us, s, rfl, rfl, hs⟩ | ⟨ts, vs, rfl, rfl, hvs⟩ | ⟨ms, vs, rfl, rfl, hvs⟩
  case inr.inr.inr.inl => exact hs.symm
  all_goals rfl

theorem toOption_asCount (h : t.value? depth = some v) : v.asCount.toOption = t.asCount? := by
  rcases Tree.value?_eq_some h with ⟨rfl, rfl⟩ | ⟨b, rfl, rfl⟩ | ⟨literal, n, rfl, rfl, hn⟩ |
    ⟨us, s, rfl, rfl, hs⟩ | ⟨ts, vs, rfl, rfl, hvs⟩ | ⟨ms, vs, rfl, rfl, hvs⟩
  case inr.inr.inl =>
    rw [Tree.asCount?, Tree.asNumeral?, hn]
    cases n <;> rfl
  all_goals rfl

theorem toOption_mapM_asText {ts : List Tree} : ∀ {vs : List Value},
    Tree.values? depth ts = some vs → (vs.mapM Value.asText).toOption = ts.mapM Tree.asText? := by
  induction ts with
  | nil =>
    intro vs h
    obtain rfl := Option.some_inj.mp h
    rfl
  | cons t ts ih =>
    intro vs h
    obtain ⟨v, hv, h⟩ := Option.bind_eq_some_iff.mp h
    obtain ⟨vs, hvs, rfl⟩ := Option.map_eq_some_iff.mp h
    rw [List.mapM_cons, List.mapM_cons, ← toOption_asText hv, ← ih hvs]
    rcases v.asText with e | s
    · rfl
    · rcases vs.mapM Value.asText with e | more
      · rfl
      · rfl

theorem toOption_asTexts (h : t.value? depth = some v) : v.asTexts.toOption = t.asTexts? := by
  rcases Tree.value?_eq_some h with ⟨rfl, rfl⟩ | ⟨b, rfl, rfl⟩ | ⟨literal, n, rfl, rfl, hn⟩ |
    ⟨us, s, rfl, rfl, hs⟩ | ⟨ts, vs, rfl, rfl, hvs⟩ | ⟨ms, vs, rfl, rfl, hvs⟩
  case inr.inr.inr.inr.inl => exact toOption_mapM_asText hvs
  all_goals rfl

theorem toOption_asUnit (h : t.value? depth = some v) :
    v.asUnit.toOption = if t.isUnit true then some () else none := by
  rcases Tree.value?_eq_some h with ⟨rfl, rfl⟩ | ⟨b, rfl, rfl⟩ | ⟨literal, n, rfl, rfl, hn⟩ |
    ⟨us, s, rfl, rfl, hs⟩ | ⟨ts, vs, rfl, rfl, hvs⟩ | ⟨ms, vs, rfl, rfl, hvs⟩
  case inr.inr.inr.inr.inr =>
    rcases ms with _ | ⟨⟨name, t⟩, ms⟩
    · obtain rfl := Option.some_inj.mp hvs
      rfl
    · obtain ⟨s, -, hvs⟩ := Option.bind_eq_some_iff.mp hvs
      obtain ⟨v, -, hvs⟩ := Option.bind_eq_some_iff.mp hvs
      obtain ⟨vs, -, rfl⟩ := Option.map_eq_some_iff.mp hvs
      rfl
  all_goals rfl

theorem toOption_ofWord (word : String) :
    (Nesting.ofWord word).toOption = Nesting.ofWord? word := by
  rw [Nesting.ofWord]
  rcases Nesting.ofWord? word with _ | nesting <;> rfl

theorem toOption_asNesting (h : t.value? depth = some v) :
    v.asNesting.toOption = t.asNesting? true := by
  rcases Tree.value?_eq_some h with ⟨rfl, rfl⟩ | ⟨b, rfl, rfl⟩ | ⟨literal, n, rfl, rfl, hn⟩ |
    ⟨us, s, rfl, rfl, hs⟩ | ⟨ts, vs, rfl, rfl, hvs⟩ | ⟨ms, vs, rfl, rfl, hvs⟩
  case inr.inr.inr.inl =>
    rw [Tree.asNesting?, hs]
    exact toOption_ofWord s
  case inr.inr.inr.inr.inr =>
    rcases ms with _ | ⟨⟨name, t⟩, ms⟩
    · obtain rfl := Option.some_inj.mp hvs
      rfl
    · obtain ⟨word, hword, hmore⟩ := Option.bind_eq_some_iff.mp hvs
      obtain ⟨v, hv, hmore⟩ := Option.bind_eq_some_iff.mp hmore
      obtain ⟨others, hothers, rfl⟩ := Option.map_eq_some_iff.mp hmore
      rw [Tree.asNesting?_object_cons, hword]
      rcases ms with _ | ⟨⟨name', t'⟩, ms⟩
      · obtain rfl := Option.some_inj.mp hothers
        have hunit := toOption_asUnit hv
        show (Nesting.ofWord word >>= fun nesting => v.asUnit >>= fun _ => pure nesting).toOption =
          if t.isUnit true then Nesting.ofWord? word else none
        rw [← toOption_ofWord word]
        generalize t.isUnit true = isUnit at hunit ⊢
        generalize v.asUnit = unit at hunit ⊢
        rcases Nesting.ofWord word with e | nesting
        · exact (ite_self _).symm
        · rcases unit with e | u <;> cases isUnit <;> first | rfl | cases hunit
      · obtain ⟨s, -, hmore⟩ := Option.bind_eq_some_iff.mp hothers
        obtain ⟨v', -, hmore⟩ := Option.bind_eq_some_iff.mp hmore
        obtain ⟨more, -, rfl⟩ := Option.map_eq_some_iff.mp hmore
        rfl
  all_goals rfl

/-- What is made of a value that was read before. -/
theorem FoldKey.toOption_decode (key : FoldKey) (h : t.value? depth = some v) :
    (key.decode v).toOption = FoldRules.change? true key t := by
  have hmap : ∀ {α : Type} (x : Except Mismatch α) (change : α → FoldRules → FoldRules),
      (x >>= fun a => pure (change a)).toOption = x.toOption.map change := by
    intro α x change
    rcases x with e | a <;> rfl
  cases key with
  | hrefAttributes =>
    exact (hmap _ _).trans (congrArg (Option.map _) (toOption_asTexts h))
  | containerDepth => exact (hmap _ _).trans (congrArg (Option.map _) (toOption_asCount h))
  | descendantMatch => exact (hmap _ _).trans (congrArg (Option.map _) (toOption_asNesting h))
  | _ => exact (hmap _ _).trans (congrArg (Option.map _) (toOption_asText h))

end

/-! ### The fold rules of a settings file -/

theorem FoldRules.toOption_applyMembers_cons (seen : List FoldKey) (r : FoldRules) (name : String)
    (v : Value) (others : List (String × Value)) :
    (FoldRules.applyMembers seen r ((name, v) :: others)).toOption =
      match FoldRules.group.key? name with
      | none => (FoldRules.applyMembers seen r others).toOption
      | some key =>
        if seen.contains key then none
        else (key.decode v).toOption.bind fun change =>
          (FoldRules.applyMembers (key :: seen) (change r) others).toOption := by
  rw [FoldRules.applyMembers]
  rcases FoldRules.group.key? name with _ | key
  · rfl
  · dsimp only
    split_ifs
    · rfl
    · rcases key.decode v with e | change <;> rfl

/-- The other members of a settings file are those that count for the fold rules. -/
theorem Settings.Members.exists_others {ms : List Member} : ∀ {m m' : Settings.Members},
    m.addTrees? ms = some m' → ∃ others, m'.others = m.others ++ others ∧ ∀ seen r,
      (FoldRules.applyMembers seen r others).toOption =
        FoldRules.group.applyMembers? (FoldRules.change? true) seen r ms := by
  induction ms with
  | nil =>
    intro m m' h
    obtain rfl := Option.some_inj.mp h
    exact ⟨[], (List.append_nil _).symm, fun _ _ => rfl⟩
  | cons member ms ih =>
    obtain ⟨us, t⟩ := member
    intro m m' h
    obtain ⟨name, hname, h⟩ := Option.bind_eq_some_iff.mp h
    obtain ⟨m₁, hadd, h⟩ := Option.bind_eq_some_iff.mp h
    obtain ⟨others, hothers, happly⟩ := ih h
    -- The two sections have names of their own, which no fold rule has.
    have hskip : FoldRules.group.key? name = none → m₁.others = m.others →
        ∃ others, m'.others = m.others ++ others ∧ ∀ seen r,
          (FoldRules.applyMembers seen r others).toOption =
            FoldRules.group.applyMembers? (FoldRules.change? true) seen r ((us, t) :: ms) := by
      intro hkey hsame
      refine ⟨others, hsame ▸ hothers, fun seen r => ?_⟩
      rw [happly, Group.applyMembers?, hname, Option.bind_some]
      simp only [hkey]
    rw [Settings.Members.addTree?] at hadd
    split_ifs at hadd with hstyle hrepeated hrender hrepeated
    · obtain ⟨style, -, rfl⟩ := Option.map_eq_some_iff.mp hadd
      exact hskip (hstyle ▸ rfl) rfl
    · obtain ⟨canvas, -, rfl⟩ := Option.map_eq_some_iff.mp hadd
      exact hskip (hrender ▸ rfl) rfl
    · obtain ⟨v, hv, rfl⟩ := Option.map_eq_some_iff.mp hadd
      refine ⟨(name, v) :: others, by rw [hothers, List.append_assoc]; rfl, fun seen r => ?_⟩
      rw [FoldRules.toOption_applyMembers_cons, Group.applyMembers?, hname, Option.bind_some]
      rcases FoldRules.group.key? name with _ | key
      · exact happly seen r
      · simp only [FoldKey.toOption_decode key hv, happly]

/-- The fold rules of a settings file are those that its members set, leniently. -/
theorem Settings.ofTrees?_fold {ms : List Member} {s : Settings}
    (h : Settings.ofTrees? ms = some s) : FoldRules.ofTrees? true ms = some s.fold := by
  obtain ⟨m, hm, hs⟩ := Option.bind_eq_some_iff.mp h
  obtain ⟨others, hothers, happly⟩ := Settings.Members.exists_others hm
  rw [FoldRules.ofTrees?, ← happly]
  rw [List.nil_append] at hothers
  rw [Settings.Members.settings, FoldRules.ofMembers, hothers] at hs
  generalize FoldRules.applyMembers [] FoldRules.group.defaults others = rules at hs ⊢
  rcases rules with e | r
  · cases hs
  · obtain rfl := Option.some_inj.mp hs
    rfl

/-! ### The two readings -/

/-- Whether the nesting of clusters is written as an object around an object without members. -/
def HoldsEmptyNesting (ms : List Member) : Prop :=
  ∃ word, (units "descendantMatch", Tree.object [(word, .object [])]) ∈ ms

/-- Strictly and leniently, the same is made of a value, except of such an object. -/
theorem asNesting?_eq (t : Tree) : t.asNesting? false = t.asNesting? true ∨
    (∃ word, t = .object [(word, .object [])]) ∧ t.asNesting? false = none := by
  cases t with
  | object ms =>
    rcases ms with _ | ⟨⟨word, t⟩, _ | ⟨m, ms⟩⟩
    · exact .inl rfl
    · cases t with
      | object ms =>
        rcases ms with _ | ⟨m, ms⟩
        · exact .inr ⟨⟨word, rfl⟩, rfl⟩
        · exact .inl rfl
      | _ => exact .inl rfl
    · exact .inl rfl
  | _ => exact .inl rfl

namespace FoldRules

variable {ms : List Member}

theorem ofTrees?_eq_of_not_holds (h : ¬HoldsEmptyNesting ms) :
    ofTrees? false ms = ofTrees? true ms := by
  refine fields.applyMembers?_congr (fun m hm key hkey => ?_) [] group.defaults
  cases key with
  | descendantMatch =>
    -- The only key whose value is decoded in two ways.
    rcases asNesting?_eq m.2 with heq | ⟨⟨word, hword⟩, -⟩
    · exact congrArg (Option.map (fields.set .descendantMatch)) heq
    · refine absurd ⟨word, ?_⟩ h
      rw [← hword]
      exact (Prod.ext hkey.symm rfl : (_, m.2) = m) ▸ hm
  | _ => rfl

theorem ofTrees?_eq_none (h : HoldsEmptyNesting ms) : ofTrees? false ms = none := by
  obtain ⟨word, hmem⟩ := h
  rcases hrules : ofTrees? false ms with _ | r
  · rfl
  · have hvalue := (fields.get_applyMembers? .descendantMatch hrules).1 _ hmem
    exact absurd hvalue.2 (Option.some_ne_none _).symm

end FoldRules

namespace Settings

/-- A settings file and its text as fold rules alone.  Take a JSON file that holds an object and is
accepted as settings.  Its text, read as fold rules, gives the fold rules of the settings, except
where the nesting of clusters is an object around an object without members: then it is refused. -/
theorem ofText_eq_fold_iff {path text : String} {bytes : ByteArray} {ms : List Member}
    {s : Settings} (hpath : isJson5Name path = false) (hbytes : decodeText bytes = .ok text)
    (htext : IsObject ms text) (hload : ofFile path (.ok bytes) = .ok s) :
    (FoldRules.ofText text = .ok s.fold ↔ ¬HoldsEmptyNesting ms) ∧
      (HoldsEmptyNesting ms → ∃ e, FoldRules.ofText text = .error e) := by
  obtain ⟨htrees, hseparator⟩ := (ofFile_eq_ok_iff hpath hbytes htext).mp hload
  have hfold := ofTrees?_fold htrees
  have hrefused : HoldsEmptyNesting ms → ∃ e, FoldRules.ofText text = .error e := by
    intro hempty
    rcases hrules : FoldRules.ofText text with e | r
    · exact ⟨e, rfl⟩
    · have hr := ((FoldRules.ofText_eq_ok_iff htext).mp hrules).1
      rw [FoldRules.ofTrees?_eq_none hempty] at hr
      cases hr
  refine ⟨⟨fun hrules hempty => ?_, fun hempty => ?_⟩, hrefused⟩
  · obtain ⟨e, he⟩ := hrefused hempty
    rw [hrules] at he
    cases he
  · rw [FoldRules.ofText_eq_ok_iff htext, FoldRules.ofTrees?_eq_of_not_holds hempty]
    exact ⟨hfold, hseparator⟩

/-- Null as the value of the only key is read in both ways. -/
theorem ofText_eq_fold_null :
    let ms : List Member := [(units "descendantMatch", .object [(units "prefix", .null)])]
    let text := "\x7b\x22descendantMatch\x22:\x7b\x22prefix\x22:null\x7d\x7d"
    let s : Settings := { fold := { nesting := .byText } }
    isJson5Name "fold.json" = false ∧ decodeText text.toUTF8 = .ok text ∧ IsObject ms text ∧
      ofFile "fold.json" (.ok text.toUTF8) = .ok s ∧ FoldRules.ofText text = .ok s.fold := by
  intro ms text s
  have hpath : isJson5Name "fold.json" = false := by decide
  have hbytes := decodeText_toUTF8 text
  have htext : IsObject ms text :=
    isObject_of_written (written_members_cons true (quoted_units _ (by decide +kernel))
      (.object (written_members_cons true (quoted_units _ (by decide +kernel)) .null
        (written_members_nil false))) (written_members_nil false)) (by decide +kernel)
  have hload : ofFile "fold.json" (.ok text.toUTF8) = .ok s :=
    (ofFile_eq_ok_iff hpath hbytes htext).mpr ⟨by decide +kernel, by decide +kernel⟩
  refine ⟨hpath, hbytes, htext, hload, ?_⟩
  refine (ofText_eq_fold_iff hpath hbytes htext hload).1.mpr ?_
  rintro ⟨word, hword⟩
  simp [ms] at hword

/-- An object without members in the place of null is accepted in a settings file only. -/
theorem not_forall_ofText_eq_fold :
    ¬∀ (path text : String) (bytes : ByteArray) (ms : List Member) (s : Settings),
      isJson5Name path = false → decodeText bytes = .ok text → IsObject ms text →
      ofFile path (.ok bytes) = .ok s → FoldRules.ofText text = .ok s.fold := by
  intro hall
  let ms : List Member := [(units "descendantMatch", .object [(units "prefix", .object [])])]
  let text := "\x7b\x22descendantMatch\x22:\x7b\x22prefix\x22:\x7b\x7d\x7d\x7d"
  have hpath : isJson5Name "fold.json" = false := by decide
  have hbytes := decodeText_toUTF8 text
  have htext : IsObject ms text :=
    isObject_of_written (written_members_cons true (quoted_units _ (by decide +kernel))
      (.object (written_members_cons true (quoted_units _ (by decide +kernel))
        (.object (written_members_nil true)) (written_members_nil false)))
      (written_members_nil false)) (by decide +kernel)
  have hload : ofFile "fold.json" (.ok text.toUTF8) = .ok { fold := { nesting := .byText } } :=
    (ofFile_eq_ok_iff hpath hbytes htext).mpr ⟨by decide +kernel, by decide +kernel⟩
  have hrules := hall _ _ _ _ _ hpath hbytes htext hload
  have hnone : FoldRules.ofTrees? false ms = none := by decide +kernel
  rw [FoldRules.ofText_eq_ok_iff htext, hnone] at hrules
  cases hrules.1

end Settings

end GraphFolding
