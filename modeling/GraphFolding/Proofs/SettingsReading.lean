/-
Settings as they are read from JSON texts.

* `FoldKey.value?`, `StyleKey.value?`, `CanvasKey.value?` — what is made of the value of a key;
* `FoldRules.fields`, `StyleRules.fields`, `Canvas.fields` — the groups as records;
* `FoldRules.toOption_ofJson` — fold rules are those that the members of the object set;
* `Settings.toOption_ofJson` — settings are those of `Settings.ofTrees?`;
* `Settings.ofFile_eq_ok_iff` — the files that hold an object and are accepted.
-/
import GraphFolding.Settings.File
import GraphFolding.Proofs.GroupRecords
namespace GraphFolding

open Json

/-! ### Values of keys -/

namespace FoldKey

/-- What the value of a key is. -/
def Value : FoldKey → Type
  | hrefAttributes => List String
  | containerDepth => Nat
  | descendantMatch => Nesting
  | _ => String

/-- What is made of the value of a key. -/
def value? (isLenient : Bool) : (key : FoldKey) → Tree → Option key.Value
  | hiddenClass, t => t.asText?
  | collapsedClass, t => t.asText?
  | clusterAttribute, t => t.asText?
  | targetAttribute, t => t.asText?
  | hrefAttributes, t => t.asTexts?
  | frameClass, t => t.asText?
  | frameTitlePrefix, t => t.asText?
  | placeholderPrefix, t => t.asText?
  | separator, t => t.asText?
  | containerDepth, t => t.asCount?
  | descendantMatch, t => t.asNesting? isLenient

/-- The value of a key in the rules. -/
def get : (key : FoldKey) → FoldRules → key.Value
  | hiddenClass, r => r.hiddenClass
  | collapsedClass, r => r.collapsedClass
  | clusterAttribute, r => r.clusterAttribute
  | targetAttribute, r => r.targetAttribute
  | hrefAttributes, r => r.hrefAttributes
  | frameClass, r => r.frameClass
  | frameTitlePrefix, r => r.frameTitlePrefix
  | placeholderPrefix, r => r.placeholderPrefix
  | separator, r => r.separator
  | containerDepth, r => r.containerDepth
  | descendantMatch, r => r.nesting

/-- The rules with a value for a key. -/
def set : (key : FoldKey) → key.Value → FoldRules → FoldRules
  | hiddenClass, (v : String), r => { r with hiddenClass := v }
  | collapsedClass, (v : String), r => { r with collapsedClass := v }
  | clusterAttribute, (v : String), r => { r with clusterAttribute := v }
  | targetAttribute, (v : String), r => { r with targetAttribute := v }
  | hrefAttributes, (v : List String), r => { r with hrefAttributes := v }
  | frameClass, (v : String), r => { r with frameClass := v }
  | frameTitlePrefix, (v : String), r => { r with frameTitlePrefix := v }
  | placeholderPrefix, (v : String), r => { r with placeholderPrefix := v }
  | separator, (v : String), r => { r with separator := v }
  | containerDepth, (v : Nat), r => { r with containerDepth := v }
  | descendantMatch, (v : Nesting), r => { r with nesting := v }

end FoldKey

/-- The fold rules as a record. -/
def FoldRules.fields : FoldRules.group.Fields where
  Value := FoldKey.Value
  get := FoldKey.get
  set := FoldKey.set
  get_set key _ _ := by cases key <;> rfl
  get_set_of_ne {key other} h _ _ := by
    cases key <;> cases other <;> first | rfl | exact absurd rfl h
  ext {r r'} h := by
    obtain ⟨⟩ := r
    obtain ⟨⟩ := r'
    congr 1
    · exact h .hiddenClass
    · exact h .collapsedClass
    · exact h .clusterAttribute
    · exact h .targetAttribute
    · exact h .hrefAttributes
    · exact h .frameClass
    · exact h .frameTitlePrefix
    · exact h .placeholderPrefix
    · exact h .separator
    · exact h .containerDepth
    · exact h .descendantMatch
  key?_keyName key := by cases key <;> rfl

namespace StyleKey

/-- What the value of a key is. -/
def Value : StyleKey → Type
  | highlightStroke => String
  | extraCss => Option String

/-- What is made of the value of a key. -/
def value? : (key : StyleKey) → Tree → Option key.Value
  | highlightStroke, t => t.asText?
  | extraCss, t => t.asOptionalText?

/-- The value of a key in the style. -/
def get : (key : StyleKey) → StyleRules → key.Value
  | highlightStroke, s => s.highlightStroke
  | extraCss, s => s.extraCss

/-- The style with a value for a key. -/
def set : (key : StyleKey) → key.Value → StyleRules → StyleRules
  | highlightStroke, (v : String), s => { s with highlightStroke := v }
  | extraCss, (v : Option String), s => { s with extraCss := v }

end StyleKey

/-- The style as a record. -/
def StyleRules.fields : StyleRules.group.Fields where
  Value := StyleKey.Value
  get := StyleKey.get
  set := StyleKey.set
  get_set key _ _ := by cases key <;> rfl
  get_set_of_ne {key other} h _ _ := by
    cases key <;> cases other <;> first | rfl | exact absurd rfl h
  ext {s s'} h := by
    obtain ⟨⟩ := s
    obtain ⟨⟩ := s'
    congr 1
    · exact h .highlightStroke
    · exact h .extraCss
  key?_keyName key := by cases key <;> rfl

namespace CanvasKey

/-- What the value of a key is. -/
def Value : CanvasKey → Type
  | width => Binary
  | height => Binary
  | background => String

/-- What is made of the value of a key. -/
def value? : (key : CanvasKey) → Tree → Option key.Value
  | width, t => t.asLength?
  | height, t => t.asLength?
  | background, t => t.asText?

/-- The value of a key in the canvas. -/
def get : (key : CanvasKey) → Canvas → key.Value
  | width, c => c.width
  | height, c => c.height
  | background, c => c.background

/-- The canvas with a value for a key. -/
def set : (key : CanvasKey) → key.Value → Canvas → Canvas
  | width, (v : Binary), c => { c with width := v }
  | height, (v : Binary), c => { c with height := v }
  | background, (v : String), c => { c with background := v }

end CanvasKey

/-- The canvas as a record. -/
def Canvas.fields : Canvas.group.Fields where
  Value := CanvasKey.Value
  get := CanvasKey.get
  set := CanvasKey.set
  get_set key _ _ := by cases key <;> rfl
  get_set_of_ne {key other} h _ _ := by
    cases key <;> cases other <;> first | rfl | exact absurd rfl h
  ext {c c'} h := by
    obtain ⟨⟩ := c
    obtain ⟨⟩ := c'
    congr 1
    · exact h .width
    · exact h .height
    · exact h .background
  key?_keyName key := by cases key <;> rfl

/-! ### What is made of members -/

namespace FoldRules

/-- The change that the value of a key makes to the rules. -/
def change? (isLenient : Bool) : FoldKey → Tree → Option (FoldRules → FoldRules) :=
  fields.change? (FoldKey.value? isLenient)

/-- The rules that the members of an object set. -/
def ofTrees? (isLenient : Bool) (ms : List Member) : Option FoldRules :=
  group.applyMembers? (change? isLenient) [] group.defaults ms

end FoldRules

/-- The style that a value sets. -/
def StyleRules.ofTree? : Tree → Option StyleRules :=
  group.ofTree? (fields.change? StyleKey.value?)

/-- The canvas that a value sets. -/
def Canvas.ofTree? : Tree → Option Canvas := group.ofTree? (fields.change? CanvasKey.value?)

namespace Settings

/-- One member more. -/
def Members.addTree? (m : Members) (name : String) (t : Tree) : Option Members :=
  if name = "style" then
    if m.style.isSome then none
    else (StyleRules.ofTree? t).map fun style => { m with style := some style }
  else if name = "render" then
    if m.canvas.isSome then none
    else (Canvas.ofTree? t).map fun canvas => { m with canvas := some canvas }
  else (t.value? (depthLimit - 1)).map fun v => { m with others := m.others ++ [(name, v)] }

/-- Members more. -/
def Members.addTrees? : Members → List Member → Option Members
  | m, [] => some m
  | m, (name, t) :: ms =>
    (textOf? name).bind fun name => (m.addTree? name t).bind fun m => m.addTrees? ms

/-- The settings that the members of an object hold. -/
def ofTrees? (ms : List Member) : Option Settings :=
  (Members.addTrees? {} ms).bind fun m => m.settings.toOption

end Settings

/-! ### Readers of settings -/

theorem Json.Stands.gives_value {t : Tree} {k : Cursor} {rest : List Char}
    (h : Stands t k rest) (depth : Nat) : Gives (k.value depth) (t.value? depth) rest := by
  obtain ⟨blanks, text, hblanks, htext, hk, hrest⟩ := h
  exact Cursor.gives_value htext depth hblanks hk hrest

section

variable {t : Tree} {k : Cursor} {rest : List Char}

theorem gives_foldKey_read (key : FoldKey) (h : Stands t k rest) :
    Gives (key.read k) (FoldRules.change? false key t) rest := by
  cases key with
  | hiddenClass => exact (Cursor.gives_text h).map _
  | collapsedClass => exact (Cursor.gives_text h).map _
  | clusterAttribute => exact (Cursor.gives_text h).map _
  | targetAttribute => exact (Cursor.gives_text h).map _
  | hrefAttributes => exact (Cursor.gives_texts h).map _
  | frameClass => exact (Cursor.gives_text h).map _
  | frameTitlePrefix => exact (Cursor.gives_text h).map _
  | placeholderPrefix => exact (Cursor.gives_text h).map _
  | separator => exact (Cursor.gives_text h).map _
  | containerDepth => exact (Cursor.gives_count h).map _
  | descendantMatch => exact (Cursor.gives_nesting h).map _

theorem gives_styleKey_read (key : StyleKey) (h : Stands t k rest) :
    Gives (key.read k) (StyleRules.fields.change? StyleKey.value? key t) rest := by
  cases key with
  | highlightStroke => exact (Cursor.gives_text h).map _
  | extraCss => exact (Cursor.gives_optionalText h).map _

theorem gives_canvasKey_read (key : CanvasKey) (h : Stands t k rest) :
    Gives (key.read k) (Canvas.fields.change? CanvasKey.value? key t) rest := by
  cases key with
  | width => exact (Cursor.gives_length h).map _
  | height => exact (Cursor.gives_length h).map _
  | background => exact (Cursor.gives_text h).map _

theorem gives_membersAdd (m : Settings.Members) (name : String) {k' : Cursor}
    (hcolon : k.expectColon = .ok k') (h : Stands t k' rest) :
    Gives (m.add name k) (m.addTree? name t) rest := by
  rw [Settings.Members.add, Settings.Members.addTree?, hcolon]
  split_ifs
  · exact Cursor.duplicate_eq_error _ _
  · exact (Cursor.gives_group (fun key _ _ _ => gives_styleKey_read key) h).map fun style =>
      { m with style := some style }
  · exact Cursor.duplicate_eq_error _ _
  · exact (Cursor.gives_group (fun key _ _ _ => gives_canvasKey_read key) h).map fun canvas =>
      { m with canvas := some canvas }
  · exact (h.gives_value _).map fun v => { m with others := m.others ++ [(name, v)] }

theorem gives_membersWithin {ms : List Member} : ∀ {isFirst : Bool} {m : Settings.Members}
    {text : List Char} {fuel : Nat} {k : Cursor}, Written (.members isFirst ms) text →
    k.rest = text ++ '\x7d' :: rest → ms.length < fuel →
    Gives (Settings.membersWithin fuel isFirst m k) (m.addTrees? ms) rest := by
  induction ms with
  | nil =>
    rintro isFirst m text (_ | fuel) k h hk hfuel
    · exact absurd hfuel (Nat.not_lt_zero _)
    · cases h with
      | noMember hblanks =>
        exact (Cursor.gives_nextKey_end hblanks hk isFirst).bind_some fun k' hk' => gives_ok hk'
  | cons member ms ih =>
    rintro isFirst m text (_ | fuel) k h hk hfuel
    · exact absurd hfuel (Nat.not_lt_zero _)
    · obtain ⟨name, t⟩ := member
      rw [List.length_cons, Nat.add_lt_add_iff_right] at hfuel
      obtain ⟨members, behindKey, hmembers, hname, hvalue⟩ := Cursor.gives_nextKey_stands h hk
      rw [Settings.membersWithin, Settings.Members.addTrees?]
      generalize textOf? name = text? at hname ⊢
      rcases text? with _ | text
      · exact gives_bind_of_error hname
      refine hname.bind_some fun k₁ hk₁ => ?_
      obtain ⟨k₂, hcolon, hstands⟩ := hvalue k₁ hk₁
      exact (gives_membersAdd m text hcolon hstands).bind fun m k₃ hk₃ => ih hmembers hk₃ hfuel

end

/-! ### Whole texts -/

section

variable {ms : List Member} {text : String}

theorem finish_eq_ok {k : Cursor} (h : IsBlanks k.rest) : k.finish = .ok () := by
  have hend : k.skipBlanks.rest = [] :=
    Cursor.rest_skipBlanks h (List.append_nil k.rest).symm (by simp)
  simp only [Cursor.finish, hend]
  rfl

theorem ends_of_isBlanks {blanks : List Char} (h : IsBlanks blanks) : Ends blanks :=
  fun c hc => .inl (h c (List.mem_of_mem_head? hc))

/-- Fold rules are those that the members of the object set. -/
theorem FoldRules.toOption_ofJson (h : IsObject ms text) :
    (FoldRules.ofJson text).toOption = FoldRules.ofTrees? false ms := by
  obtain ⟨before, inner, after, htext, hbefore, hinner, hafter⟩ := h
  have hstands : Stands (.object ms) (Cursor.ofString text) after :=
    ⟨before, _, hbefore, .object hinner, by simp [Cursor.ofString, htext], ends_of_isBlanks hafter⟩
  have hgroup := Cursor.gives_group (g := FoldRules.group)
    (fun key _ _ _ => gives_foldKey_read key) hstands
  rw [FoldRules.ofJson]
  change Gives _ (FoldRules.ofTrees? false ms) after at hgroup
  generalize FoldRules.ofTrees? false ms = rules? at hgroup ⊢
  rcases rules? with _ | r
  · obtain ⟨e, he⟩ := hgroup
    rw [he]
    rfl
  · obtain ⟨k, hk, hrest⟩ := hgroup
    rw [hk]
    show ((k.finish >>= fun _ => pure r : Except Json.Error FoldRules)).toOption = some r
    rw [finish_eq_ok (hrest ▸ hafter)]
    rfl

/-- Settings are those that the members of the object hold. -/
theorem Settings.toOption_ofJson (h : IsObject ms text) :
    (Settings.ofJson text).toOption = Settings.ofTrees? ms := by
  obtain ⟨before, inner, after, htext, hbefore, hinner, hafter⟩ := h
  have hopen : (Cursor.ofString text).skipBlanks.rest = '\x7b' :: (inner ++ '\x7d' :: after) :=
    Cursor.rest_skipBlanks_cons hbefore htext rfl
  -- There is fuel for each character, so for each member.
  have hle := Cursor.length_le_of_members hinner
  have hmembers : Gives (Settings.membersWithin ('\x7b' :: (inner ++ '\x7d' :: after)).length true
      {} (Cursor.ofString text).skipBlanks.advance) (Members.addTrees? {} ms) after := by
    refine gives_membersWithin hinner (Cursor.rest_advance hopen) ?_
    simp only [List.length_cons, List.length_append]
    omega
  simp only [Settings.ofJson, hopen, Settings.ofTrees?]
  generalize Members.addTrees? {} ms = members? at hmembers ⊢
  rcases members? with _ | m
  · obtain ⟨e, he⟩ := hmembers
    rw [he]
    rfl
  · obtain ⟨k, hk, hrest⟩ := hmembers
    rw [hk, Option.bind_some]
    rcases hsettings : m.settings with mismatch | settings
    · simp only [hsettings, bind, Except.bind]
      rfl
    · simp only [hsettings, bind, Except.bind, finish_eq_ok (hrest ▸ hafter)]
      rfl

end

/-! ### Files -/

theorem bind_eq_ok_iff {ε α β : Type} {x : Except ε α} {f : α → Except ε β} {b : β} :
    (x >>= f) = .ok b ↔ ∃ a, x = .ok a ∧ f a = .ok b := by
  rcases x with e | a
  · exact ⟨fun h => (by cases h), fun ⟨_, h, _⟩ => (by cases h)⟩
  · exact ⟨fun h => ⟨a, rfl, h⟩, fun ⟨_, h, hb⟩ => Except.ok.inj h ▸ hb⟩

theorem mapError_eq_ok_iff {ε ε' α : Type} {x : Except ε α} {f : ε → ε'} {a : α} :
    x.mapError f = .ok a ↔ x = .ok a := by
  rcases x with e | a'
  · exact ⟨fun h => (by cases h), fun h => (by cases h)⟩
  · exact ⟨fun h => congrArg _ (Except.ok.inj h), fun h => congrArg _ (Except.ok.inj h)⟩

theorem FoldRules.checked_eq_ok_iff {r r' : FoldRules} :
    r.checked = .ok r' ↔ r = r' ∧ r'.separator.isEmpty = false := by
  rw [FoldRules.checked, FoldRules.check]
  cases hempty : r.separator.isEmpty with
  | true =>
    refine ⟨fun h => (by cases h), ?_⟩
    rintro ⟨rfl, h⟩
    exact absurd (h.symm.trans hempty) Bool.false_ne_true
  | false =>
    refine ⟨fun h => ?_, ?_⟩
    · obtain rfl := Except.ok.inj h
      exact ⟨rfl, hempty⟩
    · rintro ⟨rfl, -⟩
      rfl

/-- The settings of a text are those that are read, if there is a separator. -/
theorem Settings.ofText_eq_ok_iff {path text : String} {s : Settings} :
    Settings.ofText path text = .ok s ↔
      Settings.read path text = .ok s ∧ s.fold.separator.isEmpty = false := by
  rw [Settings.ofText, bind_eq_ok_iff]
  constructor
  · rintro ⟨s', hread, h⟩
    obtain ⟨r, hchecked, hs⟩ := bind_eq_ok_iff.mp h
    obtain ⟨rfl, hseparator⟩ := FoldRules.checked_eq_ok_iff.mp hchecked
    obtain rfl := Except.ok.inj hs
    exact ⟨hread, hseparator⟩
  · rintro ⟨hread, hseparator⟩
    exact ⟨s, hread, bind_eq_ok_iff.mpr
      ⟨s.fold, FoldRules.checked_eq_ok_iff.mpr ⟨rfl, hseparator⟩, rfl⟩⟩

/-- The settings of a file are those of its text. -/
theorem Settings.ofFile_eq_ok_iff_ofText {path : String} {content : Except FileError ByteArray}
    {s : Settings} : Settings.ofFile path content = .ok s ↔
      ∃ bytes text, content = .ok bytes ∧ decodeText bytes = .ok text ∧
        Settings.ofText path text = .ok s := by
  simp only [Settings.ofFile, bind_eq_ok_iff, mapError_eq_ok_iff, exists_and_left]

section

variable {ms : List Member} {text : String}

/-- The rules of an object are those that its members set, if there is a separator. -/
theorem FoldRules.ofText_eq_ok_iff (h : IsObject ms text) {r : FoldRules} :
    FoldRules.ofText text = .ok r ↔
      FoldRules.ofTrees? false ms = some r ∧ r.separator.isEmpty = false := by
  rw [← FoldRules.toOption_ofJson h, FoldRules.ofText]
  rcases FoldRules.ofJson text with e | r'
  · exact ⟨fun h => (by cases h), fun h => (by cases h.1)⟩
  · exact FoldRules.checked_eq_ok_iff.trans (and_congr_left fun _ => Option.some_inj.symm)

/-- The settings of a file that holds an object are those that its members hold, if there is a
separator. -/
theorem Settings.ofFile_eq_ok_iff {path : String} (hpath : isJson5Name path = false)
    {bytes : ByteArray} (hbytes : decodeText bytes = .ok text) (h : IsObject ms text)
    {s : Settings} : Settings.ofFile path (.ok bytes) = .ok s ↔
      Settings.ofTrees? ms = some s ∧ s.fold.separator.isEmpty = false := by
  rw [← Settings.toOption_ofJson h]
  have hread : Settings.read path text = .ok s ↔ (Settings.ofJson text).toOption = some s := by
    rw [Settings.read, hpath]
    rcases Settings.ofJson text with e | s'
    · exact ⟨fun h => (by cases h), fun h => (by cases h)⟩
    · exact Except.ok.injEq s' s ▸ Option.some_inj.symm
  rw [← hread, ← Settings.ofText_eq_ok_iff, Settings.ofFile_eq_ok_iff_ofText]
  refine ⟨?_, fun h => ⟨bytes, text, rfl, hbytes, h⟩⟩
  rintro ⟨_, text', hsame, htext', hok⟩
  rw [← Except.ok.inj hsame, hbytes] at htext'
  rwa [Except.ok.inj htext']

end

theorem decodeText_toUTF8 (text : String) : decodeText text.toUTF8 = .ok text := by
  have hvalid : text.toUTF8.IsValidUTF8 := text.isValidUTF8
  rw [decodeText, String.fromUTF8?, dif_pos hvalid]
  rfl

end GraphFolding
