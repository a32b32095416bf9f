/-
Settings entry by entry.

The members of a settings file are its entries, those of the two sections one by one.  If no name
stands twice, each of the sixteen fields depends on the entry of its own path only:

* `Settings.entries` — the entries of a settings file, each with its path;
* `Settings.Field` — the fields, and what is made of the value of each;
* `Settings.isSome_ofTrees?_iff`, `Settings.states_of_ofTrees?` — which entries are accepted, and
  the settings that they state;
* `Settings.ofFile_merges` — the order of entries does not count, nor do other entries for a field.
-/
import GraphFolding.Proofs.BufferedRules
namespace GraphFolding

open Json

namespace Settings

/-! ### Entries -/

/-- What a settings file states at one place: the names that lead there, and the value. -/
abbrev Entry : Type := List (List UInt16) × Tree

/-- Whether a name is that of a section. -/
def IsSection (name : List UInt16) : Prop := name = units "style" ∨ name = units "render"

instance : DecidablePred IsSection := fun _ => inferInstanceAs (Decidable (_ ∨ _))

/-- The entries of a member: those of a section one by one. -/
def entriesOf (m : Member) : List Entry :=
  match m.2 with
  | .object inner =>
    if IsSection m.1 then inner.map fun member => ([m.1, member.1], member.2) else [([m.1], m.2)]
  | _ => [([m.1], m.2)]

/-- The entries of a settings file. -/
def entries (ms : List Member) : List Entry := ms.flatMap entriesOf

/-- Members in another order have their entries in another order. -/
theorem entries_perm {ms ms' : List Member} (h : ms.Perm ms') : (entries ms).Perm (entries ms') :=
  h.flatMap_right _

/-- Whether no name stands twice among members, nor inside the sections, which are objects. -/
structure IsProper (ms : List Member) : Prop where
  nodup : (ms.map Prod.fst).Nodup
  isObject : ∀ m ∈ ms, IsSection m.1 → ∃ inner, m.2 = .object inner ∧ (inner.map Prod.fst).Nodup

theorem mem_entriesOf {m : Member} {e : Entry} : e ∈ entriesOf m ↔
    (∃ inner, IsSection m.1 ∧ m.2 = .object inner ∧
      ∃ member ∈ inner, e = ([m.1, member.1], member.2)) ∨
    (¬(IsSection m.1 ∧ ∃ inner, m.2 = .object inner) ∧ e = ([m.1], m.2)) := by
  obtain ⟨name, t⟩ := m
  cases t with
  | object inner =>
    by_cases hsection : IsSection name
    · simp [entriesOf, hsection, eq_comm]
    · simp [entriesOf, hsection]
  | _ => simp [entriesOf]

/-- The entries at the top are the members of other names. -/
theorem mem_entries_top {ms : List Member} {name : List UInt16} (hname : ¬IsSection name)
    {t : Tree} : ([name], t) ∈ entries ms ↔ (name, t) ∈ ms := by
  simp only [entries, List.mem_flatMap, mem_entriesOf]
  constructor
  · rintro ⟨m, hm, ⟨inner, -, -, member, -, heq⟩ | ⟨-, heq⟩⟩
    · simp at heq
    · obtain ⟨rfl, rfl⟩ : name = m.1 ∧ t = m.2 := by simpa using heq
      exact hm
  · exact fun hm => ⟨_, hm, .inr ⟨fun h => hname h.1, rfl⟩⟩

/-- The entries inside a section are its members. -/
theorem mem_entries_section {ms : List Member} {name key : List UInt16} {t : Tree}
    (hname : IsSection name) : ([name, key], t) ∈ entries ms ↔
      ∃ inner, (name, .object inner) ∈ ms ∧ (key, t) ∈ inner := by
  simp only [entries, List.mem_flatMap, mem_entriesOf]
  constructor
  · rintro ⟨m, hm, ⟨inner, -, hinner, member, hmember, heq⟩ | ⟨-, heq⟩⟩
    · obtain ⟨⟨rfl, rfl⟩, rfl⟩ : (name = m.1 ∧ key = member.1) ∧ t = member.2 := by
        simpa using heq
      exact ⟨inner, hinner ▸ hm, hmember⟩
    · simp at heq
  · rintro ⟨inner, hm, hmember⟩
    exact ⟨_, hm, .inl ⟨inner, hname, rfl, _, hmember, rfl⟩⟩

/-! ### Fields -/

/-- The fields of settings. -/
inductive Field where
  | fold (key : FoldKey)
  | style (key : StyleKey)
  | canvas (key : CanvasKey)
  deriving DecidableEq, Repr

namespace Field

/-- The path to a field. -/
def path : Field → List (List UInt16)
  | fold key => [units key.name]
  | style key => [units "style", units key.name]
  | canvas key => [units "render", units key.name]

/-- What the value of a field is. -/
def Value : Field → Type
  | fold key => key.Value
  | style key => key.Value
  | canvas key => key.Value

/-- What is made of the value of a field. -/
def value? : (f : Field) → Tree → Option f.Value
  | fold key, t => key.value? true t
  | style key, t => key.value? t
  | canvas key, t => key.value? t

/-- The value of a field. -/
def get : (f : Field) → Settings → f.Value
  | fold key, s => key.get s.fold
  | style key, s => key.get s.style
  | canvas key, s => key.get s.canvas

end Field

/-- Whether settings are those that entries state: each field has the value that is made of its
entry, or its default. -/
def States (es : List Entry) (s : Settings) : Prop :=
  ∀ f : Field, (∀ t, (f.path, t) ∈ es → f.value? t = some (f.get s)) ∧
    ((∀ t, (f.path, t) ∉ es) → f.get s = f.get {})

/-- Whether an entry can be read: its names are texts, a value at the top is not nested too deeply
and holds no number that is too large, and that of a field is one that the field can have. -/
structure IsReadable (e : Entry) : Prop where
  isText : ∀ name ∈ e.1, (textOf? name).isSome
  isValue : ∀ name, e.1 = [name] → (e.2.value? (depthLimit - 1)).isSome
  isField : ∀ f : Field, f.path = e.1 → (f.value? e.2).isSome

/-! ### Sections -/

section Section

variable {α : Type} (get : Members → Option α) (name : String) (ofTree? : Tree → Option α)

/-- What has been read of a section: what is made of its member, of which there is only one, or
what there was before. -/
theorem Members.get_addTrees?
    (hsame : ∀ {m m₁ t}, Members.addTree? m name t = some m₁ →
      get m = none ∧ ∃ a, ofTree? t = some a ∧ get m₁ = some a)
    (hother : ∀ {m m₁ other t}, other ≠ name → Members.addTree? m other t = some m₁ →
      get m₁ = get m) {ms : List Member} :
    ∀ {m m' : Members}, m.addTrees? ms = some m' →
      (∀ t, (units name, t) ∈ ms → get m = none ∧ ∃ a, ofTree? t = some a ∧ get m' = some a) ∧
      ((∀ t, (units name, t) ∉ ms) → get m' = get m) := by
  -- By induction on the members: what the first one adds is there already for the others, which
  -- hence cannot have the name of the section again.
  induction ms with
  | nil =>
    intro m m' h
    obtain rfl := Option.some_inj.mp h
    exact ⟨fun t ht => absurd ht List.not_mem_nil, fun _ => rfl⟩
  | cons member ms ih =>
    obtain ⟨us, t₀⟩ := member
    intro m m' h
    obtain ⟨text, htext, hmore⟩ := Option.bind_eq_some_iff.mp h
    obtain ⟨m₁, hadd, hrest⟩ := Option.bind_eq_some_iff.mp hmore
    obtain rfl := textOf?_eq_some_iff.mp htext
    obtain ⟨hset, hkept⟩ := ih hrest
    by_cases hname : text = name
    · subst hname
      obtain ⟨hnone, a, ha, hsome⟩ := hsame hadd
      have honce : ∀ t, (units text, t) ∉ ms := fun t hmem => by
        rw [(hset t hmem).1] at hsome
        cases hsome
      refine ⟨fun t ht => ⟨hnone, a, ?_, (hkept honce).trans hsome⟩, fun habsent => ?_⟩
      · rcases List.mem_cons.mp ht with heq | hmem
        · rwa [(Prod.mk.inj heq).2]
        · exact absurd hmem (honce t)
      · exact absurd List.mem_cons_self (habsent t₀)
    · have hsame := hother hname hadd
      refine ⟨fun t ht => ?_, fun habsent => ?_⟩
      · rcases List.mem_cons.mp ht with heq | hmem
        · exact absurd (units_injective (Prod.mk.inj heq).1).symm hname
        · exact hsame ▸ hset t hmem
      · rw [hkept fun t hmem => habsent t (List.mem_cons_of_mem _ hmem), hsame]

end Section

theorem Members.style_addTree? {m m₁ : Members} {name : String} {t : Tree} (hname : name ≠ "style")
    (h : m.addTree? name t = some m₁) : m₁.style = m.style := by
  rw [addTree?, if_neg hname] at h
  split_ifs at h
  · obtain ⟨a, ha, rfl⟩ := Option.map_eq_some_iff.mp h
    rfl
  · obtain ⟨v, hv, rfl⟩ := Option.map_eq_some_iff.mp h
    rfl

theorem Members.canvas_addTree? {m m₁ : Members} {name : String} {t : Tree}
    (hname : name ≠ "render") (h : m.addTree? name t = some m₁) : m₁.canvas = m.canvas := by
  rw [addTree?] at h
  split_ifs at h
  · obtain ⟨a, ha, rfl⟩ := Option.map_eq_some_iff.mp h
    rfl
  · obtain ⟨v, hv, rfl⟩ := Option.map_eq_some_iff.mp h
    rfl

theorem Members.style_addTrees? {ms : List Member} {m : Members}
    (h : Members.addTrees? {} ms = some m) :
    (∀ t, (units "style", t) ∈ ms → ∃ a, StyleRules.ofTree? t = some a ∧ m.style = some a) ∧
      ((∀ t, (units "style", t) ∉ ms) → m.style = none) := by
  have hget := Members.get_addTrees? Members.style "style" StyleRules.ofTree? ?_
    Members.style_addTree? h
  · exact ⟨fun t ht => (hget.1 t ht).2, hget.2⟩
  · intro m m₁ t hadd
    rw [Members.addTree?, if_pos rfl] at hadd
    split_ifs at hadd with hnone
    obtain ⟨a, ha, rfl⟩ := Option.map_eq_some_iff.mp hadd
    exact ⟨by simpa using hnone, a, ha, rfl⟩

theorem Members.canvas_addTrees? {ms : List Member} {m : Members}
    (h : Members.addTrees? {} ms = some m) :
    (∀ t, (units "render", t) ∈ ms → ∃ a, Canvas.ofTree? t = some a ∧ m.canvas = some a) ∧
      ((∀ t, (units "render", t) ∉ ms) → m.canvas = none) := by
  have hget := Members.get_addTrees? Members.canvas "render" Canvas.ofTree? ?_
    Members.canvas_addTree? h
  · exact ⟨fun t ht => (hget.1 t ht).2, hget.2⟩
  · intro m m₁ t hadd
    rw [Members.addTree?, if_neg (by decide), if_pos rfl] at hadd
    split_ifs at hadd with hnone
    obtain ⟨a, ha, rfl⟩ := Option.map_eq_some_iff.mp hadd
    exact ⟨by simpa using hnone, a, ha, rfl⟩

/-- Whether a member can be added: a section can be decoded, and any other value can be read. -/
def IsAddable (name : List UInt16) (t : Tree) : Prop :=
  (name = units "style" → (StyleRules.ofTree? t).isSome) ∧
  (name = units "render" → (Canvas.ofTree? t).isSome) ∧
  (¬IsSection name → (t.value? (depthLimit - 1)).isSome)

theorem Members.isSome_addTree?_iff {m : Members} {name : String} {t : Tree}
    (hstyle : name = "style" → m.style = none) (hcanvas : name = "render" → m.canvas = none) :
    (m.addTree? name t).isSome ↔ IsAddable (units name) t := by
  rw [addTree?]
  simp only [IsAddable, IsSection, units_injective.eq_iff]
  split_ifs with hname hsome hname' hsome
  · simp [hstyle hname] at hsome
  · subst hname
    simp
  · simp [hcanvas hname'] at hsome
  · subst hname'
    simp
  · simp [hname, hname']

/-- Members of different names can be added if each of them can. -/
theorem Members.isSome_addTrees?_iff {ms : List Member} : ∀ {m : Members},
    (ms.map Prod.fst).Nodup → (units "style" ∈ ms.map Prod.fst → m.style = none) →
    (units "render" ∈ ms.map Prod.fst → m.canvas = none) →
    ((m.addTrees? ms).isSome ↔
      ∀ member ∈ ms, (textOf? member.1).isSome ∧ IsAddable member.1 member.2) := by
  induction ms with
  | nil => simp [addTrees?]
  | cons member ms ih =>
    obtain ⟨us, t⟩ := member
    intro m hnodup hstyle hcanvas
    rw [List.map_cons, List.nodup_cons] at hnodup
    rw [addTrees?, List.forall_mem_cons]
    rcases htext : textOf? us with _ | name
    · simp
    obtain rfl := textOf?_eq_some_iff.mp htext
    have hadd := Members.isSome_addTree?_iff (m := m) (t := t)
      (fun h : name = "style" => hstyle (h ▸ List.mem_cons_self))
      (fun h => hcanvas (h ▸ List.mem_cons_self))
    rcases hm : m.addTree? name t with _ | m₁
    · simp [hm] at hadd
      simp [hm, hadd]
    · -- A name that is still to come is not the one that was added.
      have hnew : ∀ other, units other ∈ ms.map Prod.fst → name ≠ other := by
        rintro other hmem rfl
        exact hnodup.1 hmem
      have hstyle' : units "style" ∈ ms.map Prod.fst → m₁.style = none := fun hmem =>
        (style_addTree? (hnew "style" hmem) hm).trans (hstyle (List.mem_cons_of_mem _ hmem))
      have hcanvas' : units "render" ∈ ms.map Prod.fst → m₁.canvas = none := fun hmem =>
        (canvas_addTree? (hnew "render" hmem) hm).trans (hcanvas (List.mem_cons_of_mem _ hmem))
      simp [hm] at hadd
      simp [hm, hadd, ih hnodup.2 hstyle' hcanvas']

/-! ### Settings and their entries -/

theorem not_isSection_foldKey (key : FoldKey) : ¬IsSection (units key.name) := by
  simp only [IsSection, units_injective.eq_iff]
  cases key <;> decide

/-- A section has the values that its entries state. -/
theorem get_section {κ σ : Type} [DecidableEq κ] {g : Group κ σ} (F : g.Fields)
    {decode? : (key : κ) → Tree → Option (F.Value key)} {name : List UInt16}
    (hname : IsSection name) {ms : List Member} (hproper : IsProper ms) {read : Option σ}
    (hset : ∀ t, (name, t) ∈ ms → ∃ a, g.ofTree? (F.change? decode?) t = some a ∧ read = some a)
    (hkept : (∀ t, (name, t) ∉ ms) → read = none) (key : κ) :
    (∀ t, ([name, g.keyUnits key], t) ∈ entries ms →
      decode? key t = some (F.get key (read.getD g.defaults))) ∧
    ((∀ t, ([name, g.keyUnits key], t) ∉ entries ms) →
      F.get key (read.getD g.defaults) = F.get key g.defaults) := by
  simp only [mem_entries_section hname]
  refine ⟨?_, fun habsent => ?_⟩
  · rintro t ⟨inner, hmem, ht⟩
    obtain ⟨a, ha, rfl⟩ := hset _ hmem
    exact ((F.get_applyMembers? key ha).1 t ht).2
  · by_cases hpresent : ∃ t, (name, t) ∈ ms
    · obtain ⟨t, hmem⟩ := hpresent
      obtain ⟨inner, rfl, -⟩ := hproper.isObject _ hmem hname
      obtain ⟨a, ha, rfl⟩ := hset _ hmem
      exact (F.get_applyMembers? key ha).2 fun t ht => habsent t ⟨inner, hmem, ht⟩
    · rw [hkept fun t hmem => hpresent ⟨t, hmem⟩]
      rfl

/-- Settings that are read are those that the entries state. -/
theorem states_of_ofTrees? {ms : List Member} (hproper : IsProper ms) {s : Settings}
    (h : ofTrees? ms = some s) : States (entries ms) s := by
  have hfold := ofTrees?_fold h
  obtain ⟨m, hm, hs⟩ := Option.bind_eq_some_iff.mp h
  obtain ⟨hstyleSet, hstyleKept⟩ := Members.style_addTrees? hm
  obtain ⟨hcanvasSet, hcanvasKept⟩ := Members.canvas_addTrees? hm
  have hsections : s.style = m.style.getD {} ∧ s.canvas = m.canvas.getD {} := by
    rw [Members.settings] at hs
    generalize FoldRules.ofMembers m.others = rules at hs
    rcases rules with e | r
    · cases hs
    · obtain rfl := Option.some_inj.mp hs
      exact ⟨rfl, rfl⟩
  rintro (key | key | key)
  · obtain ⟨hset, hkept⟩ := FoldRules.fields.get_applyMembers? key hfold
    simp only [Field.path, mem_entries_top (not_isSection_foldKey key)]
    exact ⟨fun t ht => (hset t ht).2, hkept⟩
  · show (∀ t, _ → key.value? t = some (key.get s.style)) ∧ (_ → key.get s.style = _)
    rw [hsections.1]
    exact get_section StyleRules.fields (.inl rfl) hproper hstyleSet hstyleKept key
  · show (∀ t, _ → key.value? t = some (key.get s.canvas)) ∧ (_ → key.get s.canvas = _)
    rw [hsections.2]
    exact get_section Canvas.fields (.inr rfl) hproper hcanvasSet hcanvasKept key

/-- Settings are determined by what is stated. -/
theorem States.unique {es : List Entry} {s s' : Settings} (h : States es s) (h' : States es s') :
    s = s' := by
  have hget : ∀ f : Field, f.get s = f.get s' := by
    intro f
    by_cases hpresent : ∃ t, (f.path, t) ∈ es
    · obtain ⟨t, ht⟩ := hpresent
      exact Option.some_inj.mp (((h f).1 t ht).symm.trans ((h' f).1 t ht))
    · have habsent : ∀ t, (f.path, t) ∉ es := fun t ht => hpresent ⟨t, ht⟩
      exact ((h f).2 habsent).trans ((h' f).2 habsent).symm
  obtain ⟨fold, style, canvas⟩ := s
  obtain ⟨fold', style', canvas'⟩ := s'
  congr 1
  · exact FoldRules.fields.ext fun key => hget (.fold key)
  · exact StyleRules.fields.ext fun key => hget (.style key)
  · exact Canvas.fields.ext fun key => hget (.canvas key)

/-! ### Which entries are accepted -/

theorem isReadable_top_iff {name : List UInt16} {t : Tree} : IsReadable ([name], t) ↔
    (textOf? name).isSome ∧ (t.value? (depthLimit - 1)).isSome ∧
      ∀ key : FoldKey, name = units key.name → (key.value? true t).isSome := by
  refine ⟨fun h => ⟨h.isText _ List.mem_cons_self, h.isValue _ rfl, ?_⟩,
    fun h => ⟨by simpa using h.1, fun _ _ => h.2.1, ?_⟩⟩
  · rintro key rfl
    exact h.isField (.fold key) rfl
  · rintro (key | key | key) hpath
    · exact h.2.2 key (List.cons.inj hpath).1.symm
    · cases (List.cons.inj hpath).2
    · cases (List.cons.inj hpath).2

theorem isReadable_section_iff {name : String} {key : List UInt16} {t : Tree} :
    IsReadable ([units name, key], t) ↔ (textOf? key).isSome ∧
      ∀ f : Field, f.path = [units name, key] → (f.value? t).isSome := by
  refine ⟨fun h => ⟨h.isText _ (by simp), h.isField⟩,
    fun h => ⟨?_, fun _ heq => by simp at heq, h.2⟩⟩
  simpa [textOf?_eq_some_iff.mpr rfl] using h.1

theorem forall_style_iff {key : List UInt16} {t : Tree} :
    (∀ f : Field, f.path = [units "style", key] → (f.value? t).isSome) ↔
      ∀ styleKey : StyleKey, key = units styleKey.name → (styleKey.value? t).isSome := by
  refine ⟨fun h styleKey hkey => h (.style styleKey) (hkey ▸ rfl), fun h => ?_⟩
  rintro (key | key | key) hpath
  · cases (List.cons.inj hpath).2
  · exact h key (List.cons.inj (List.cons.inj hpath).2).1.symm
  · exact absurd (units_injective (List.cons.inj hpath).1) (by decide)

theorem forall_canvas_iff {key : List UInt16} {t : Tree} :
    (∀ f : Field, f.path = [units "render", key] → (f.value? t).isSome) ↔
      ∀ canvasKey : CanvasKey, key = units canvasKey.name → (canvasKey.value? t).isSome := by
  refine ⟨fun h canvasKey hkey => h (.canvas canvasKey) (hkey ▸ rfl), fun h => ?_⟩
  rintro (key | key | key) hpath
  · cases (List.cons.inj hpath).2
  · exact absurd (units_injective (List.cons.inj hpath).1) (by decide)
  · exact h key (List.cons.inj (List.cons.inj hpath).2).1.symm

/-- The entries of a section can be read if the section can be decoded. -/
theorem forall_isReadable_section_iff {κ σ : Type} [DecidableEq κ] {g : Group κ σ} (F : g.Fields)
    {decode? : (key : κ) → Tree → Option (F.Value key)} {name : String}
    (hfields : ∀ {us t}, (∀ f : Field, f.path = [units name, us] → (f.value? t).isSome) ↔
      ∀ key, us = g.keyUnits key → (decode? key t).isSome)
    {inner : List Member} (hnodup : (inner.map Prod.fst).Nodup) :
    (∀ member ∈ inner, IsReadable ([units name, member.1], member.2)) ↔
      (g.ofTree? (F.change? decode?) (.object inner)).isSome := by
  rw [Group.ofTree?, F.isSome_applyMembers?_iff hnodup fun _ h => absurd h List.not_mem_nil]
  simp only [isReadable_section_iff, hfields]

/-- The entries of a member can be read if the member can be added and the value of a key
decoded. -/
theorem forall_isReadable_entriesOf_iff {name : List UInt16} {t : Tree}
    (hobject : IsSection name → ∃ inner, t = .object inner ∧ (inner.map Prod.fst).Nodup) :
    (∀ e ∈ entriesOf (name, t), IsReadable e) ↔ ((textOf? name).isSome ∧ IsAddable name t) ∧
      ∀ key : FoldKey, name = units key.name → (key.value? true t).isSome := by
  by_cases hsection : IsSection name
  · obtain ⟨inner, rfl, hnodup⟩ := hobject hsection
    have hkey : ∀ key : FoldKey, name ≠ units key.name := fun key heq =>
      not_isSection_foldKey key (heq ▸ hsection)
    have hentries : (∀ e ∈ entriesOf (name, .object inner), IsReadable e) ↔
        ∀ member ∈ inner, IsReadable ([name, member.1], member.2) := by
      simp only [entriesOf, if_pos hsection, List.forall_mem_map]
    rw [hentries]
    have hother : units "style" ≠ units "render" := units_injective.ne (by decide)
    rcases hsection with rfl | rfl
    · rw [forall_isReadable_section_iff StyleRules.fields forall_style_iff hnodup]
      simp [IsAddable, IsSection, hkey, hother, textOf?_eq_some_iff.mpr rfl, StyleRules.ofTree?]
    · rw [forall_isReadable_section_iff Canvas.fields forall_canvas_iff hnodup]
      simp [IsAddable, IsSection, hkey, hother.symm, textOf?_eq_some_iff.mpr rfl, Canvas.ofTree?]
  · have hentries : entriesOf (name, t) = [([name], t)] := by
      cases t <;> simp [entriesOf, hsection]
    have haddable : IsAddable name t ↔ (t.value? (depthLimit - 1)).isSome :=
      ⟨fun h => h.2.2 hsection,
        fun h => ⟨fun heq => absurd (.inl heq) hsection, fun heq => absurd (.inr heq) hsection,
          fun _ => h⟩⟩
    rw [hentries, List.forall_mem_singleton, isReadable_top_iff, haddable, and_assoc]

/-- Members can be read if they can be added and the rules that they set be decoded. -/
theorem isSome_ofTrees?_iff_and {ms : List Member} : (ofTrees? ms).isSome ↔
    (Members.addTrees? {} ms).isSome ∧ (FoldRules.ofTrees? true ms).isSome := by
  rw [ofTrees?]
  rcases hm : Members.addTrees? {} ms with _ | m
  · simp
  obtain ⟨others, hothers, happly⟩ := Members.exists_others hm
  rw [List.nil_append] at hothers
  rw [FoldRules.ofTrees?, ← happly, Option.bind_some, Members.settings, FoldRules.ofMembers,
    hothers]
  rcases FoldRules.applyMembers [] FoldRules.group.defaults others with e | r
  · simp [Except.toOption, bind, Except.bind]
  · simp [Except.toOption, bind, Except.bind, pure, Except.pure]

/-- Members of different names can be read if each of their entries can. -/
theorem isSome_ofTrees?_iff {ms : List Member} (hproper : IsProper ms) :
    (ofTrees? ms).isSome ↔ ∀ e ∈ entries ms, IsReadable e := by
  have hentries : (∀ e ∈ entries ms, IsReadable e) ↔ ∀ m ∈ ms,
      ((textOf? m.1).isSome ∧ IsAddable m.1 m.2) ∧
        ∀ key : FoldKey, m.1 = units key.name → (key.value? true m.2).isSome := by
    rw [entries, List.forall_mem_flatMap]
    exact forall₂_congr fun m hm => forall_isReadable_entriesOf_iff (hproper.isObject m hm)
  have hrules : (FoldRules.ofTrees? true ms).isSome ↔ ∀ m ∈ ms, (textOf? m.1).isSome ∧
      ∀ key : FoldKey, m.1 = units key.name → (key.value? true m.2).isSome :=
    FoldRules.fields.isSome_applyMembers?_iff hproper.nodup fun _ h => absurd h List.not_mem_nil
  rw [hentries, isSome_ofTrees?_iff_and, hrules,
    Members.isSome_addTrees?_iff hproper.nodup (fun _ => rfl) (fun _ => rfl)]
  constructor
  · exact fun h m hm => ⟨h.1 m hm, (h.2 m hm).2⟩
  · exact fun h => ⟨fun m hm => (h m hm).1, fun m hm => ⟨(h m hm).1.1, (h m hm).2⟩⟩

/-! ### Files -/

/-- No settings without a separator are accepted, in either format. -/
theorem separator_ne_empty {path : String} {content : Except FileError ByteArray} {s : Settings}
    (h : ofFile path content = .ok s) : s.fold.separator ≠ "" := by
  obtain ⟨bytes, text, -, -, htext⟩ := ofFile_eq_ok_iff_ofText.mp h
  obtain ⟨-, hseparator⟩ := ofText_eq_ok_iff.mp htext
  rintro hempty
  rw [hempty] at hseparator
  cases hseparator

/-- What entries state does not depend on their order. -/
theorem States.congr {es es' : List Entry} (h : ∀ e, e ∈ es ↔ e ∈ es') {s : Settings} :
    States es s ↔ States es' s := by
  simp only [States, h]

/-- Where the same is stated for a field, it has the same value. -/
theorem States.get_eq {es es' : List Entry} {s s' : Settings} (h : States es s)
    (h' : States es' s') {f : Field} (hsame : ∀ t, (f.path, t) ∈ es ↔ (f.path, t) ∈ es') :
    f.get s' = f.get s := by
  by_cases hpresent : ∃ t, (f.path, t) ∈ es
  · obtain ⟨t, ht⟩ := hpresent
    have hvalue := (h f).1 t ht
    rw [(h' f).1 t ((hsame t).mp ht)] at hvalue
    exact Option.some_inj.mp hvalue
  · have habsent : ∀ t, (f.path, t) ∉ es := fun t ht => hpresent ⟨t, ht⟩
    rw [(h f).2 habsent, (h' f).2 fun t ht => habsent t ((hsame t).mpr ht)]

/-- Where less is stated, there still is a separator. -/
theorem States.separator_of_subset {es es' : List Entry} {s s' : Settings} (h : States es s)
    (h' : States es' s') (hsubset : es' ⊆ es) (hseparator : s.fold.separator.isEmpty = false) :
    s'.fold.separator.isEmpty = false := by
  let f : Field := .fold .separator
  by_cases hpresent : ∃ t, (f.path, t) ∈ es'
  · obtain ⟨t, ht⟩ := hpresent
    have hvalue := (h f).1 t (hsubset ht)
    rw [(h' f).1 t ht] at hvalue
    have hsame : s'.fold.separator = s.fold.separator := Option.some_inj.mp hvalue
    rwa [hsame]
  · have hdefault : s'.fold.separator = ({} : Settings).fold.separator :=
      (h' f).2 fun t ht => hpresent ⟨t, ht⟩
    rw [hdefault]
    rfl

section

variable {path text path' text' : String} {bytes bytes' : ByteArray} {ms ms' : List Member}

/-- The settings of a file are those that its entries state, if all can be read and there is a
separator. -/
theorem ofFile_eq_ok_iff_states (hpath : isJson5Name path = false)
    (hbytes : decodeText bytes = .ok text) (htext : IsObject ms text) (hproper : IsProper ms)
    {s : Settings} : ofFile path (.ok bytes) = .ok s ↔
      (∀ e ∈ entries ms, IsReadable e) ∧ States (entries ms) s ∧
        s.fold.separator.isEmpty = false := by
  rw [ofFile_eq_ok_iff hpath hbytes htext, ← isSome_ofTrees?_iff hproper, ← and_assoc]
  refine and_congr_left fun _ => ⟨fun h => ⟨h ▸ rfl, states_of_ofTrees? hproper h⟩, fun h => ?_⟩
  obtain ⟨s', hs'⟩ := Option.isSome_iff_exists.mp h.1
  rw [hs', (states_of_ofTrees? hproper hs').unique h.2]

/-- Settings merge entry by entry.  None without a separator are accepted.  Take two JSON files that
hold objects in which no name stands twice, the sections being objects too.  If they have the same
entries, in whatever order, they are accepted as the same settings or both refused.  In accepted
settings each field has what is made of its own entry, or its default.  A file that has only some
of the entries is accepted as well, and the fields whose entries it has stay as they are. -/
theorem ofFile_merges (hpath : isJson5Name path = false) (hbytes : decodeText bytes = .ok text)
    (htext : IsObject ms text) (hproper : IsProper ms) (hpath' : isJson5Name path' = false)
    (hbytes' : decodeText bytes' = .ok text') (htext' : IsObject ms' text')
    (hproper' : IsProper ms') :
    (∀ path content s, ofFile path content = .ok s → s.fold.separator ≠ "") ∧
    ((entries ms).Perm (entries ms') →
      (ofFile path (.ok bytes)).toOption = (ofFile path' (.ok bytes')).toOption) ∧
    (∀ s, ofFile path (.ok bytes) = .ok s → States (entries ms) s) ∧
    (∀ s, ofFile path (.ok bytes) = .ok s → entries ms' ⊆ entries ms →
      ∃ s', ofFile path' (.ok bytes') = .ok s' ∧ ∀ f : Field,
        (∀ t, (f.path, t) ∈ entries ms → (f.path, t) ∈ entries ms') → f.get s' = f.get s) := by
  have hiff := fun s => ofFile_eq_ok_iff_states hpath hbytes htext hproper (s := s)
  have hiff' := fun s => ofFile_eq_ok_iff_states hpath' hbytes' htext' hproper' (s := s)
  refine ⟨fun _ _ _ => separator_ne_empty, fun hperm => ?_, fun s hload => ((hiff s).mp hload).2.1,
    fun s hload hsubset => ?_⟩
  · -- What is asked of the entries is asked of their members, in no order.
    have hsame : ∀ s, ofFile path (.ok bytes) = .ok s ↔ ofFile path' (.ok bytes') = .ok s := by
      intro s
      rw [hiff, hiff', States.congr fun e => hperm.mem_iff]
      simp only [hperm.mem_iff]
    rcases hload : ofFile path (.ok bytes) with e | s
    · rcases hload' : ofFile path' (.ok bytes') with e' | s'
      · rfl
      · rw [(hsame s').mpr hload'] at hload
        cases hload
    · rw [(hsame s).mp hload]
  · -- Fewer entries can be read if all can, and the separator is kept or the default.
    obtain ⟨hreadable, hstates, hseparator⟩ := (hiff s).mp hload
    have hreadable' : ∀ e ∈ entries ms', IsReadable e := fun e he => hreadable e (hsubset he)
    obtain ⟨s', hs'⟩ := Option.isSome_iff_exists.mp ((isSome_ofTrees?_iff hproper').mpr hreadable')
    have hstates' := states_of_ofTrees? hproper' hs'
    have hseparator' := hstates.separator_of_subset hstates' hsubset hseparator
    refine ⟨s', (hiff' s').mpr ⟨hreadable', hstates', hseparator'⟩, fun f hkept => ?_⟩
    exact hstates.get_eq hstates' fun t => ⟨hkept t, fun ht => hsubset ht⟩

end

/-- A section before another member, and behind it. -/
theorem ofFile_merges_reversed :
    let ms : List Member := [(units "style", .object [(units "extraCss", .null)]),
      (units "separator", .text (units "/"))]
    let text := "\x7b\x22style\x22:\x7b\x22extraCss\x22:null\x7d,\x22separator\x22:\x22/\x22\x7d"
    let text' := "\x7b\x22separator\x22:\x22/\x22,\x22style\x22:\x7b\x22extraCss\x22:null\x7d\x7d"
    let s : Settings := { fold := { separator := "/" } }
    isJson5Name "fold.json" = false ∧ decodeText text.toUTF8 = .ok text ∧ IsObject ms text ∧
      IsProper ms ∧ decodeText text'.toUTF8 = .ok text' ∧ IsObject ms.reverse text' ∧
      IsProper ms.reverse ∧ (entries ms).Perm (entries ms.reverse) ∧
      ofFile "fold.json" (.ok text.toUTF8) = .ok s ∧
      (ofFile "fold.json" (.ok text'.toUTF8)).toOption = some s := by
  intro ms text text' s
  have hpath : isJson5Name "fold.json" = false := by decide
  have hobject : ∀ m ∈ ms, IsSection m.1 →
      ∃ inner, m.2 = .object inner ∧ (inner.map Prod.fst).Nodup := by
    simp only [ms, List.forall_mem_cons]
    exact ⟨fun _ => ⟨_, rfl, by decide⟩, fun h => absurd h (by decide), by simp⟩
  have hproper : IsProper ms := ⟨by decide, hobject⟩
  have hproper' : IsProper ms.reverse :=
    ⟨by decide, fun m hm => hobject m (List.mem_reverse.mp hm)⟩
  have hstyle : Written (.value (.object [(units "extraCss", .null)]))
      "\x7b\x22extraCss\x22:null\x7d".toList :=
    .object (written_members_cons true (quoted_units "extraCss" (by decide +kernel)) .null
      (written_members_nil false))
  have hseparator : Written (.value (.text (units "/"))) "\x22/\x22".toList :=
    .text (quoted_units "/" (by decide +kernel))
  have htext : IsObject ms text :=
    isObject_of_written (written_members_cons true (quoted_units _ (by decide +kernel)) hstyle
      (written_members_cons false (quoted_units _ (by decide +kernel)) hseparator
        (written_members_nil false))) (by decide +kernel)
  have htext' : IsObject ms.reverse text' :=
    isObject_of_written (written_members_cons true (quoted_units _ (by decide +kernel)) hseparator
      (written_members_cons false (quoted_units _ (by decide +kernel)) hstyle
        (written_members_nil false))) (by decide +kernel)
  have hperm := entries_perm (List.reverse_perm ms).symm
  have hload : ofFile "fold.json" (.ok text.toUTF8) = .ok s :=
    (ofFile_eq_ok_iff hpath (decodeText_toUTF8 text) htext).mpr
      ⟨by decide +kernel, by decide +kernel⟩
  refine ⟨hpath, decodeText_toUTF8 text, htext, hproper, decodeText_toUTF8 text', htext', hproper',
    hperm, hload, ?_⟩
  have hmerges := ofFile_merges hpath (decodeText_toUTF8 text) htext hproper hpath
    (decodeText_toUTF8 text') htext' hproper'
  rw [← hmerges.2.1 hperm, hload]
  rfl

end Settings
end GraphFolding
