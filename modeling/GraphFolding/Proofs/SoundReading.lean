/-
What is read is sound.

Whatever text is accepted, the nodes read of it keep the rules they were read under: names are
names, prefixes are bound and bound once, attributes are different, text holds allowed
characters.

* `Xml.Node.Sound` — a node that keeps these rules, in a scope inherited from around it;
* `Xml.Builder.Sound` — a document under construction that does, kept by every piece of a
  document that is read;
* `Xml.readDocument_ensures` — so all nodes of a document keep them.
-/
import GraphFolding.Proofs.Ensuring
import GraphFolding.Proofs.ReadingContent
namespace GraphFolding

open Xml

namespace Xml

/-! ### Sound nodes -/

/-- A binding that may be in force: its prefix is a name other than `xml`, and neither reserved
namespace is bound. -/
structure Binding.Sound (b : Binding) : Prop where
  isNamePart : ∀ p ∈ b.name, IsNamePart p
  ne_xml : b.name ≠ some "xml"
  uri_ne_xml : b.uri ≠ Scope.xmlUri
  uri_ne_xmlns : b.uri ≠ Scope.xmlnsUri

/-- Sound bindings, in which no prefix is bound twice. -/
structure Scope.Coherent (scope : Scope) : Prop where
  sound : ∀ b ∈ scope, b.Sound
  prefixes_nodup : (scope.filterMap (·.name)).Nodup

/-- An attribute that is no declaration, with the namespace its prefix is bound to. -/
structure Attribute.Sound (scope : Scope) (a : Attribute) : Prop where
  written : a.written.IsValid
  not_declares : a.written.declares = false
  uri_eq : a.uri = scope.attributeUri a.written
  bound : ∀ p ∈ a.written.qualifier?, p = "xml" ∨ scope.binds (some p) = true

/-- A start tag under the bindings of its scope, which hides or keeps every inherited one. -/
structure Tag.Sound (inherited : Scope) (tag : Tag) : Prop where
  written : tag.written.IsValid
  coherent : tag.scope.Coherent
  covers : ∀ b ∈ inherited, tag.scope.binds b.name = true
  uri_eq : tag.uri = tag.scope.uri? tag.written.qualifier?
  bound : ∀ p ∈ tag.written.qualifier?, tag.scope.binds (some p) = true
  attributes : ∀ a ∈ tag.attributes, a.Sound tag.scope
  attributes_apart : tag.attributes.Pairwise fun a b => Builder.sameName a b = false

/-- The namespace of an element is bound. -/
theorem Tag.Sound.uri {inherited : Scope} {tag : Tag} (h : tag.Sound inherited) :
    ∀ uri ∈ tag.uri, ∃ b ∈ tag.scope, b.uri = uri := by
  intro uri huri
  rw [h.uri_eq] at huri
  obtain ⟨b, hb, rfl⟩ := Option.map_eq_some_iff.mp huri
  exact ⟨b, List.mem_of_find?_eq_some hb, rfl⟩

mutual

/-- A node that keeps the rules it is read under. -/
def Node.Sound (inherited : Scope) : Node → Prop
  | .element tag children => tag.Sound inherited ∧ AllSound tag.scope children
  | .text value => IsAllowedText value
  | .comment value => Markup.CommentWellFormed value
  | .instruction target value => Markup.InstructionLegible target value

/-- As `Node.Sound`, for several nodes. -/
def AllSound (inherited : Scope) : List Node → Prop
  | [] => True
  | x :: xs => x.Sound inherited ∧ AllSound inherited xs

end

theorem allSound_iff {inherited : Scope} {xs : List Node} :
    AllSound inherited xs ↔ ∀ x ∈ xs, x.Sound inherited := by
  induction xs with
  | nil => simp [AllSound]
  | cons x xs ih => rw [AllSound, ih, List.forall_mem_cons]

/-! ### Scopes -/

namespace Scope

theorem not_mem_prefixes {scope : Scope} {p : String} (h : scope.binds (some p) = false) :
    p ∉ scope.filterMap (·.name) := by
  intro hmem
  obtain ⟨b, hb, hname⟩ := List.mem_filterMap.mp hmem
  exact List.any_eq_false.mp h b hb (by simp [hname])

theorem coherent_nil : Coherent [] := ⟨by simp, List.nodup_nil⟩

theorem Coherent.concat {scope : Scope} (hs : scope.Coherent) {b : Binding} (hb : b.Sound)
    (hnew : ∀ p ∈ b.name, scope.binds (some p) = false) : Coherent (scope ++ [b]) := by
  refine ⟨?_, ?_⟩
  · intro x hx
    rcases List.mem_append.mp hx with hx | hx
    · exact hs.sound x hx
    · rwa [List.mem_singleton.mp hx]
  · obtain ⟨name, uri⟩ := b
    cases name with
    | none => simpa using hs.prefixes_nodup
    | some p =>
      rw [List.filterMap_append]
      refine hs.prefixes_nodup.append (by simp) ?_
      simpa using not_mem_prefixes (hnew p rfl)

theorem foldl_extend_coherent {inherited : Scope} : ∀ {own : Scope}, own.Coherent →
    (∀ b ∈ inherited, b.Sound) → Coherent
      (inherited.foldl (fun scope b => if scope.binds b.name then scope else scope ++ [b]) own) := by
  induction inherited with
  | nil => exact fun hown _ => hown
  | cons b inherited ih =>
    intro own hown hsound
    have hmore : ∀ x ∈ inherited, x.Sound := fun x hx => hsound x (List.mem_cons_of_mem b hx)
    rw [List.foldl_cons]
    by_cases hb : own.binds b.name = true
    · rw [if_pos hb]
      exact ih hown hmore
    · rw [if_neg hb]
      refine ih (hown.concat (hsound b List.mem_cons_self) fun p hp => ?_) hmore
      rw [← (hp : b.name = some p)]
      exact Bool.eq_false_iff.mpr hb

theorem extend_coherent {own inherited : Scope} (hown : own.Coherent)
    (hinherited : inherited.Coherent) : (extend own inherited).Coherent := by
  rw [extend]
  by_cases h : own.isEmpty
  · rwa [if_pos h]
  · rw [if_neg h]
    exact foldl_extend_coherent hown hinherited.sound

theorem uri?_append (scope scope' : Scope) (name : Option String) :
    (scope ++ scope').uri? name = (scope.uri? name).or (scope'.uri? name) := by
  rw [uri?, List.find?_append, Option.map_or]
  rfl

theorem uri?_foldl_extend {name : Option String} {inherited : Scope} : ∀ {own : Scope},
    (inherited.foldl (fun scope b => if scope.binds b.name then scope else scope ++ [b])
      own).uri? name = (own.uri? name).or (inherited.uri? name) := by
  induction inherited with
  | nil => simp [uri?]
  | cons b inherited ih =>
    intro own
    have hcons : Scope.uri? (b :: inherited) name =
        (Scope.uri? [b] name).or (Scope.uri? inherited name) := uri?_append [b] inherited name
    rw [List.foldl_cons, ih, hcons]
    by_cases hb : own.binds b.name = true
    · rw [if_pos hb]
      by_cases hname : b.name = name
      · obtain ⟨uri, huri⟩ := exists_uri?_of_binds hb
        rw [← hname, huri]
        rfl
      · simp [uri?, hname]
    · rw [if_neg hb, uri?_append, Option.or_assoc]

/-- What a name stands for under own and inherited bindings. -/
theorem uri?_extend (own inherited : Scope) (name : Option String) :
    (extend own inherited).uri? name = (own.uri? name).or (inherited.uri? name) := by
  rw [extend]
  by_cases h : own.isEmpty
  · rw [if_pos h, List.isEmpty_iff.mp h]
    rfl
  · rw [if_neg h, uri?_foldl_extend]

theorem binds_extend (own inherited : Scope) (name : Option String) :
    (extend own inherited).binds name = (own.binds name || inherited.binds name) := by
  rw [← isSome_uri?, uri?_extend, Option.isSome_or, isSome_uri?, isSome_uri?]

end Scope

/-! ### Documents under construction -/

/-- The bindings in force inside the innermost of several open elements. -/
def scopeOf : List OpenElement → Scope
  | [] => []
  | e :: _ => e.tag.scope

/-- Open elements with sound tags, and sound nodes in them so far. -/
def PathSound : List OpenElement → Prop
  | [] => True
  | e :: rest => e.tag.Sound (scopeOf rest) ∧ (∀ x ∈ e.children, x.Sound e.tag.scope) ∧
      PathSound rest

theorem PathSound.coherent {path : List OpenElement} (h : PathSound path) :
    (scopeOf path).Coherent := by
  cases path with
  | nil => exact Scope.coherent_nil
  | cons e rest => exact h.1.coherent

namespace Builder

/-- A document under construction that keeps the rules it is read under. -/
structure Sound (b : Builder) : Prop where
  path : PathSound b.path
  outer : ∀ x ∈ b.outer, x.Sound []
  declared : Scope.Coherent b.declared
  pending : ∀ a ∈ b.pending, a.written.IsValid ∧ a.written.declares = false

theorem outerScope_eq (b : Builder) : b.outerScope = scopeOf b.path := by
  rw [outerScope]
  cases b.path with
  | nil => rfl
  | cons e rest => rfl

theorem sound_empty : Sound {} := ⟨trivial, by simp, Scope.coherent_nil, by simp⟩

namespace Sound

variable {b : Builder} (hb : b.Sound)
include hb

theorem modifyNodes {change : List Node → List Node} (hchange : ∀ xs,
    (∀ x ∈ xs, x.Sound b.outerScope) → ∀ x ∈ change xs, x.Sound b.outerScope) :
    (b.modifyNodes change).Sound := by
  have hpath := hb.path
  rw [outerScope_eq] at hchange
  unfold Builder.modifyNodes
  split
  · rename_i hlist
    rw [hlist] at hchange
    exact ⟨hpath, hchange b.outer hb.outer, hb.declared, hb.pending⟩
  · rename_i e rest hlist
    rw [hlist] at hpath hchange
    exact ⟨⟨hpath.1, hchange e.children hpath.2.1, hpath.2.2⟩, hb.outer, hb.declared, hb.pending⟩

theorem append {x : Node} (hx : x.Sound b.outerScope) : (b.append x).Sound := by
  have hchange : (b.modifyNodes (x :: ·)).Sound := by
    refine hb.modifyNodes fun xs hxs y hy => ?_
    rcases List.mem_cons.mp hy with rfl | hy
    · exact hx
    · exact hxs y hy
  exact ⟨hchange.path, hchange.outer, hchange.declared, hchange.pending⟩

theorem appendText {value : String} (hvalue : IsAllowedText value) :
    (b.appendText value).Sound := by
  have hchange : (b.modifyNodes (joinText b.joins value)).Sound := by
    refine hb.modifyNodes fun xs hxs => ?_
    unfold joinText
    split
    · rename_i before rest
      have hbefore : IsAllowedText before := hxs (.text before) List.mem_cons_self
      split
      · intro y hy
        rcases List.mem_cons.mp hy with rfl | hy
        · intro c hc
          rw [String.toList_append] at hc
          exact (List.mem_append.mp hc).elim (hbefore c) (hvalue c)
        · exact hxs y (List.mem_cons_of_mem _ hy)
      · intro y hy
        rcases List.mem_cons.mp hy with rfl | hy
        · exact hvalue
        · exact hxs y hy
    · intro y hy
      rcases List.mem_cons.mp hy with rfl | hy
      · exact hvalue
      · exact hxs y hy
  exact ⟨hchange.path, hchange.outer, hchange.declared, hchange.pending⟩

theorem outerScope_coherent : b.outerScope.Coherent := by
  rw [outerScope_eq]
  exact hb.path.coherent

/-! ### Tags -/

theorem declarePrefix {name : String} (hname : IsNamePart name) (uri : String)
    (place : Position) : Ensures Sound (b.declarePrefix name uri place) := by
  unfold Builder.declarePrefix
  refine .ite (fun _ => .error _) fun hxmlns => .ite (fun _ => .error _) fun hxml => ?_
  refine .ite (fun _ => .error _) fun _ => .ite (fun _ => .error _) fun hnew => ?_
  refine .ite (fun _ => .ok hb) fun huri => .ok ⟨hb.path, hb.outer, ?_, hb.pending⟩
  refine hb.declared.concat ⟨?_, ?_, huri, hxmlns⟩ ?_
  · rintro p hp
    rwa [← Option.some_inj.mp hp]
  · intro h
    simp [huri, Option.some_inj.mp h] at hxml
  · rintro p hp
    rw [← Option.some_inj.mp hp]
    simpa using hnew

theorem declareDefault (uri : String) (place : Position) :
    Ensures Sound (b.declareDefault uri place) := by
  unfold Builder.declareDefault
  refine .ite (fun _ => .error _) fun hxml => .ite (fun _ => .error _) fun hxmlns => .ok ?_
  exact ⟨hb.path, hb.outer, hb.declared.concat ⟨by simp, by simp, hxml, hxmlns⟩ (by simp),
    hb.pending⟩

theorem declareAttribute {name : QName} (hname : name.IsValid) (value : String)
    (place : Position) : Ensures Sound (b.declareAttribute name value place) := by
  unfold Builder.declareAttribute
  refine .ite (fun _ => hb.declarePrefix hname.2 _ _) fun hq => ?_
  refine .ite (fun _ => hb.declareDefault _ _) fun hlocal => .ok ?_
  refine ⟨hb.path, hb.outer, hb.declared, fun a ha => ?_⟩
  rcases List.mem_append.mp ha with ha | ha
  · exact hb.pending a ha
  · obtain rfl := List.mem_singleton.mp ha
    exact ⟨hname, by simp [QName.declares, hq, hlocal]⟩

end Sound

theorem resolveAttribute_ensures {scope : Scope} {a : PendingAttribute} (hname : a.written.IsValid)
    (hplain : a.written.declares = false) :
    Ensures (Attribute.Sound scope) (resolveAttribute scope a) := by
  unfold resolveAttribute
  split
  · rename_i hq
    exact .ok ⟨hname, hplain, by rw [Scope.attributeUri, hq], by simp [hq]⟩
  · rename_i hq
    exact .ok ⟨hname, hplain, by rw [Scope.attributeUri, hq]; rfl, by simp [hq]⟩
  · rename_i p hxml hq
    have hne : p ≠ "xml" := hxml
    unfold resolvePrefix
    split
    · rename_i uri huri
      refine .ok ⟨hname, hplain, ?_, ?_⟩
      · simp only [Scope.attributeUri, hq, if_neg hne, huri]
      · intro x hx
        simp only [hq] at hx
        rw [← Option.some_inj.mp hx, ← Scope.isSome_uri?, huri]
        exact .inr rfl
    · exact .error _

theorem resolveAttributes_ensures (scope : Scope) (pending : List PendingAttribute) :
    ∀ {found : List Attribute}, (∀ a ∈ found, a.Sound scope) →
    found.Pairwise (fun a b => sameName a b = false) →
    (∀ a ∈ pending, a.written.IsValid ∧ a.written.declares = false) →
    Ensures (fun as => (∀ a ∈ as, a.Sound scope) ∧ as.Pairwise fun a b => sameName a b = false)
      (resolveAttributes scope found pending) := by
  induction pending with
  | nil => exact fun hfound hapart _ => .ok ⟨hfound, hapart⟩
  | cons a pending ih =>
    intro found hfound hapart hpending
    obtain ⟨hname, hplain⟩ := hpending a List.mem_cons_self
    refine Ensures.bind (resolveAttribute_ensures hname hplain) fun x hx => ?_
    by_cases hany : found.any (sameName x) = true
    · simp only [hany, if_true]
      exact .error _
    · rw [if_neg hany]
      have hnew : ∀ y ∈ found, sameName y x = false := by
        intro y hy
        rw [sameName_comm]
        exact Bool.eq_false_iff.mpr fun h => hany (List.any_eq_true.mpr ⟨y, hy, h⟩)
      refine ih ?_ ?_ fun y hy => hpending y (List.mem_cons_of_mem a hy)
      · intro y hy
        rcases List.mem_append.mp hy with hy | hy
        · exact hfound y hy
        · rwa [List.mem_singleton.mp hy]
      · exact List.pairwise_append.mpr ⟨hapart, by simp, by simpa using hnew⟩

/-! ### Character data -/

theorem mem_pushData {isLast : Bool} {c x : Char} {data : List Char}
    (h : x ∈ pushData isLast c data) : x ∈ data ∨ x = c ∨ x = '\n' := by
  unfold pushData at h
  split at h
  · split at h
    · simp at h ⊢
      tauto
    · split at h
      · simp at h ⊢
        tauto
      · simp at h ⊢
        tauto
  · split at h
    · simp at h ⊢
      tauto
    · simp at h ⊢
      tauto

theorem isAllowed_of_mem_pushData {isLast : Bool} {c x : Char} {data : List Char}
    (hdata : ∀ y ∈ data, isAllowed y = true) (hc : isAllowed c = true)
    (h : x ∈ pushData isLast c data) : isAllowed x = true := by
  rcases mem_pushData h with h | rfl | rfl
  · exact hdata x h
  · exact hc
  · rfl

theorem isAllowed_of_mem_sectionTextInto {rest : List Char} : ∀ {data : List Char} {x : Char},
    (∀ y ∈ data, isAllowed y = true) → (∀ y ∈ rest, isAllowed y = true) →
    x ∈ sectionTextInto data rest → isAllowed x = true := by
  induction rest with
  | nil => exact fun hdata _ hx => hdata _ (List.mem_reverse.mp hx)
  | cons c rest ih =>
    intro data x hdata hrest hx
    obtain ⟨hc, hrest⟩ := List.forall_mem_cons.mp hrest
    exact ih (fun y hy => isAllowed_of_mem_pushData hdata hc hy) hrest hx

/-! ### Tags at their ends -/

theorem resolveElement_ensures (scope : Scope) (name : QName) (place : Position) :
    Ensures (fun uri => uri = scope.uri? name.qualifier? ∧
      ∀ p ∈ name.qualifier?, scope.binds (some p) = true) (resolveElement scope name place) := by
  unfold resolveElement
  split
  · rename_i hq
    rw [hq]
    exact .ok ⟨rfl, by simp⟩
  · rename_i p hq
    rw [hq]
    refine Ensures.bind (P := fun uri => scope.uri? (some p) = some uri) ?_ fun uri huri => ?_
    · unfold resolvePrefix
      split
      · rename_i uri huri
        exact .ok huri
      · exact .error _
    · refine .ok ⟨huri.symm, fun q hq' => ?_⟩
      obtain rfl := Option.some_inj.mp hq'
      rw [← Scope.isSome_uri?, huri]
      rfl

variable {b : Builder} (hb : b.Sound)
include hb

/-- The scope and the attributes of the tag at hand, and what is left of the builder. -/
theorem takeTag_ensures : Ensures (fun r => r.1.Coherent ∧
    (∀ x ∈ b.outerScope, r.1.binds x.name = true) ∧ (∀ a ∈ r.2.1, a.Sound r.1) ∧
    (r.2.1.Pairwise fun x y => sameName x y = false) ∧ r.2.2.Sound ∧ r.2.2.path = b.path)
    b.takeTag := by
  have hattributes := resolveAttributes_ensures (Scope.extend b.declared b.outerScope)
    b.pending (by simp) List.Pairwise.nil hb.pending
  refine Ensures.bind hattributes ?_
  rintro as ⟨hsound, hapart⟩
  refine .ok ⟨Scope.extend_coherent hb.declared hb.outerScope_coherent, fun x hx => ?_, hsound,
    hapart, ⟨hb.path, hb.outer, Scope.coherent_nil, by simp⟩, rfl⟩
  rw [Scope.binds_extend, Bool.or_eq_true]
  exact .inr (List.any_eq_true.mpr ⟨x, hx, by simp⟩)

theorem takeStartTag_ensures {name : QName} (hname : name.IsValid) (place : Position) :
    Ensures (fun r => r.1.Sound b.outerScope ∧ r.2.Sound ∧ r.2.path = b.path)
      (b.takeStartTag name place) := by
  refine Ensures.bind (takeTag_ensures hb) ?_
  rintro ⟨scope, as, b'⟩ ⟨hscope, hcovers, has, hapart, hb', hpath⟩
  refine Ensures.bind (resolveElement_ensures scope name place) ?_
  rintro uri ⟨huri, hbound⟩
  exact .ok ⟨⟨hname, hscope, hcovers, huri, hbound, has, hapart⟩, hb', hpath⟩

theorem startElement_ensures {name : QName} (hname : name.IsValid) (place : Position) :
    Ensures Sound (b.startElement name place) := by
  refine Ensures.bind (takeStartTag_ensures hb hname place) ?_
  rintro ⟨tag, b'⟩ ⟨htag, hb', hpath⟩
  rw [outerScope_eq, ← hpath] at htag
  exact .ok ⟨⟨htag, by simp, hb'.path⟩, hb'.outer, hb'.declared, hb'.pending⟩

theorem emptyElement_ensures {name : QName} (hname : name.IsValid) (place : Position) :
    Ensures Sound (b.emptyElement name place) := by
  refine Ensures.bind (takeStartTag_ensures hb hname place) ?_
  rintro ⟨tag, b'⟩ ⟨htag, hb', hpath⟩
  rw [outerScope_eq, ← hpath, ← outerScope_eq] at htag
  exact .ok (hb'.append ⟨htag, trivial⟩)

theorem endElement_ensures (name : QName) (place : Position) :
    Ensures Sound (b.endElement name place) := by
  unfold endElement
  refine .ite (fun _ => .error _) fun _ => ?_
  refine Ensures.bind (takeTag_ensures hb) ?_
  rintro ⟨scope, as, b'⟩ ⟨-, -, -, -, hb', -⟩
  simp only []
  split
  · exact .error _
  · rename_i e rest hlist
    have hpath := hb'.path
    rw [hlist] at hpath
    refine .ite (fun _ => .error _) fun _ => .ok ?_
    have hrest : Sound { b' with path := rest } :=
      ⟨hpath.2.2, hb'.outer, hb'.declared, hb'.pending⟩
    refine hrest.append ⟨?_, allSound_iff.mpr fun x hx => ?_⟩
    · rw [outerScope_eq]
      exact hpath.1
    · exact hpath.2.1 x (List.mem_reverse.mp hx)

/-! ### Pieces of content -/

theorem comment_ensures (k : Cursor) : Ensures (fun r => r.1.Sound) (b.comment k) := by
  refine Ensures.bind (Cursor.spanAllowed_ensures _ _) ?_
  rintro ⟨text, k'⟩ ⟨-, hspan⟩
  refine Ensures.bind_any fun k'' => .ite (fun _ => .error _) fun h => .ok ?_
  simp only [Bool.or_eq_true, not_or, decide_eq_true_eq] at h
  refine hb.append ⟨?_, ?_, ?_⟩
  · rw [IsAllowedText, String.toList_ofList]
    exact hspan.allowed
  · rw [String.toList_ofList, ← occursIn_iff]
    exact h.1
  · rw [String.toList_ofList]
    exact h.2

theorem instruction_ensures (k : Cursor) : Ensures (fun r => r.1.Sound) (b.instruction k) := by
  refine .ite (fun _ => .error _) fun _ => ?_
  refine Ensures.bind (Cursor.name_ensures _) ?_
  rintro ⟨target, k₁⟩ htarget
  refine Ensures.bind (Cursor.spanAllowed_ensures k₁.skipBlanks _) ?_
  rintro ⟨value, k₂⟩ ⟨hrest, hspan⟩
  refine Ensures.bind_any fun k₃ => .ok (hb.append ⟨htarget, fun v hv => ?_⟩)
  by_cases hempty : value.isEmpty
  · simp [hempty] at hv
  · obtain rfl : String.ofList value = v := by simpa [hempty] using hv
    rw [IsAllowedText, String.toList_ofList]
    refine ⟨hspan.allowed, ?_, ?_, hspan.not_infix (s := "?>") (by decide)⟩
    · intro h
      have hnil : value = [] := by simpa using congrArg String.toList h
      simp [hnil] at hempty
    · -- The value begins after the blanks.
      have hstops := Cursor.stopsAt_skipBlanks k₁
      rw [hrest] at hstops
      cases value with
      | nil => rfl
      | cons c value => simpa using hstops c rfl


theorem cdata_ensures (k : Cursor) : Ensures (fun r => r.1.Sound) (b.cdata k) := by
  refine Ensures.bind (Cursor.spanAllowed_ensures _ _) ?_
  rintro ⟨written, k'⟩ ⟨-, hspan⟩
  refine Ensures.bind_any fun k'' => .ok (hb.appendText ?_)
  rw [sectionText, IsAllowedText, String.toList_ofList]
  exact fun c hc => isAllowed_of_mem_sectionTextInto (by simp) hspan.allowed hc

theorem readAttribute_ensures (levels : Nat) (k : Cursor) :
    Ensures (fun r => r.1.Sound) (b.readAttribute levels k) := by
  refine Ensures.bind (Cursor.qualifiedName_ensures k) ?_
  rintro ⟨name, k₁⟩ hname
  refine Ensures.bind_any fun k₂ => Ensures.bind_any ?_
  rintro ⟨quote, start⟩
  refine Ensures.bind_any ?_
  rintro ⟨written, k₃⟩
  refine Ensures.bind_any fun k₄ => Ensures.bind_any ?_
  rintro ⟨value, references⟩
  have hb' : Sound { b with references } := ⟨hb.path, hb.outer, hb.declared, hb.pending⟩
  exact Ensures.bind (hb'.declareAttribute hname value k.position) fun b' hb' => .ok hb'

omit hb in
theorem tagRest_ensures (levels fuel : Nat) : ∀ {b : Builder} (k : Cursor), b.Sound →
    Ensures (fun r => r.2.1.Sound) (b.tagRest levels fuel k) := by
  induction fuel with
  | zero => exact fun k hb => .ok hb
  | succ fuel ih =>
    intro b k hb
    unfold tagRest
    simp only []
    split
    · exact .ok hb
    · exact .error _
    · exact Ensures.bind_any fun k' => .ok hb
    · exact .ok hb
    · refine .ite (fun _ => .error _) fun _ => ?_
      refine Ensures.bind (readAttribute_ensures hb levels _) ?_
      rintro ⟨b', k'⟩ hb'
      exact ih k' hb'

theorem beginTag_ensures (name : QName) (place : Position) :
    Ensures Sound (b.beginTag name place) :=
  .ite (fun _ => .error _) fun _ => .ok ⟨hb.path, hb.outer, hb.declared, hb.pending⟩

theorem startTag_ensures (levels : Nat) (k : Cursor) :
    Ensures (fun r => r.2.1.Sound) (b.startTag levels k) := by
  refine Ensures.bind (Cursor.qualifiedName_ensures _) ?_
  rintro ⟨name, k₁⟩ hname
  refine Ensures.bind (beginTag_ensures hb name _) fun b₁ hb₁ => ?_
  refine Ensures.bind (tagRest_ensures levels _ _ hb₁) ?_
  rintro ⟨tagEnd, b₂, k₂⟩ hb₂
  cases tagEnd with
  | opened => exact Ensures.bind (startElement_ensures hb₂ hname _) fun b₃ hb₃ => .ok hb₃
  | closed => exact Ensures.bind (emptyElement_ensures hb₂ hname _) fun b₃ hb₃ => .ok hb₃
  | cut => exact .ok hb₂

theorem endTag_ensures (k : Cursor) : Ensures (fun r => r.1.Sound) (b.endTag k) := by
  refine Ensures.bind_any ?_
  rintro ⟨name, k'⟩
  refine Ensures.bind_any fun k'' => ?_
  exact Ensures.bind (endElement_ensures hb name _) fun b' hb' => .ok hb'

theorem flush_sound {data : List Char} (hdata : ∀ c ∈ data, isAllowed c = true) :
    (b.flush data).Sound := by
  unfold flush
  split
  · exact hb
  · refine hb.appendText ?_
    rw [IsAllowedText, String.toList_ofList]
    exact fun c hc => hdata c (List.mem_reverse.mp hc)

section Replacement

variable {replace : Builder → Position → Cursor → Except Error Builder}
  (hreplace : ∀ {b : Builder} (place : Position) (k : Cursor), b.Sound →
    Ensures Sound (replace b place k))
include hreplace
omit hb

/-- Character data, in which the replacement text of entities may bring nodes of its own. -/
theorem characterDataWith_ensures (inside : Bool) (fuel : Nat) : ∀ {b : Builder}
    {data : List Char} (verbatim : Bool) {k : Cursor}, b.Sound →
    (∀ c ∈ data, isAllowed c = true) → (∀ c ∈ k.rest, isAllowed c = true) →
    Ensures Sound (b.characterDataWith inside replace fuel data verbatim k) := by
  induction fuel with
  | zero =>
    intro b data verbatim k hb hdata _
    exact .ok (flush_sound hb hdata)
  | succ fuel ih =>
    intro b data verbatim k hb hdata hk
    unfold characterDataWith
    split
    · exact .ok (flush_sound hb hdata)
    · split
      · exact .error _
      · rename_i c k' href
        obtain ⟨hchar, hsuffix⟩ := Cursor.reference?_spec href
        have hc := hchar c rfl
        have hk' : ∀ x ∈ k'.rest, isAllowed x = true := fun x hx => hk x (hsuffix.subset hx)
        refine .ite (fun _ => ih _ hb ?_ hk') fun _ => ih _ hb ?_ hk'
        · exact fun x hx => isAllowed_of_mem_pushData hdata hc hx
        · exact List.forall_mem_cons.mpr ⟨hc, hdata⟩
      · rename_i name k' href
        obtain ⟨-, hsuffix⟩ := Cursor.reference?_spec href
        split
        · exact .error _
        · refine Ensures.bind (hreplace _ _ (flush_sound hb hdata)) fun b' hb' => ?_
          exact ih _ hb' (by simp) fun x hx => hk x (hsuffix.subset hx)
    · rename_i c rest _ hrest
      rw [hrest, List.forall_mem_cons] at hk
      refine ih _ hb ?_ fun x hx => ?_
      · by_cases hverbatim : verbatim
        · rw [if_pos hverbatim]
          exact List.forall_mem_cons.mpr ⟨hk.1, hdata⟩
        · rw [if_neg hverbatim]
          exact fun x hx => isAllowed_of_mem_pushData hdata hk.1 hx
      · rw [Cursor.advance, hrest] at hx
        exact hk.2 x hx

theorem plainText_ensures (inside : Bool) {b : Builder} (hb : b.Sound) (k : Cursor) :
    Ensures (fun r => r.1.Sound) (b.plainText inside replace k) := by
  refine Ensures.bind (Cursor.spanAllowed_ensures _ _) ?_
  rintro ⟨written, k'⟩ ⟨-, hspan⟩
  refine .ite (fun _ => .error _) fun _ => ?_
  refine Ensures.bind (characterDataWith_ensures hreplace inside _ _ hb (by simp) ?_) ?_
  · exact hspan.allowed
  · exact fun b' hb' => .ok hb'

theorem contentWith_ensures (levels fuel : Nat) : ∀ (depth : Nat) {b : Builder} (k : Cursor),
    b.Sound → Ensures (fun r => r.1.Sound) (b.contentWith levels replace fuel depth k) := by
  induction fuel with
  | zero => exact fun _ _ _ hb => .ok hb
  | succ fuel ih =>
    intro depth b k hb
    unfold contentWith
    split
    · exact .ok hb
    · refine .ite (fun _ => ?_) fun _ => .ite (fun _ => ?_) fun _ => .error _
      · exact Ensures.bind (comment_ensures hb k) fun r hr => ih _ _ hr
      · exact Ensures.bind (cdata_ensures hb k) fun r hr => ih _ _ hr
    · exact Ensures.bind (instruction_ensures hb k) fun r hr => ih _ _ hr
    · refine Ensures.bind (endTag_ensures hb k) fun r hr => ?_
      cases depth with
      | zero => exact .ok hr
      | succ depth => exact ih _ _ hr
    · exact Ensures.bind (startTag_ensures hb levels k) fun r hr => ih _ _ hr
    · exact .error _
    · exact Ensures.bind (plainText_ensures hreplace _ hb k) fun r hr => ih _ _ hr

end Replacement

omit hb in
theorem replacement_ensures (levels : Nat) : ∀ {b : Builder} (place : Position) (k : Cursor),
    b.Sound → Ensures Sound (b.replacement levels place k) := by
  induction levels with
  | zero => exact fun _ _ _ => .error _
  | succ levels ih =>
    intro b place k hb
    refine Ensures.bind_any fun references => ?_
    have hb' : Sound { b with references, latestTag := none } :=
      ⟨hb.path, hb.outer, hb.declared, hb.pending⟩
    refine Ensures.bind (contentWith_ensures ih levels _ 0 k hb') ?_
    rintro ⟨inner, k'⟩ hinner
    exact .ok ⟨hinner.path, hinner.outer, hinner.declared, hinner.pending⟩

theorem content_ensures (k : Cursor) : Ensures (fun r => r.1.Sound) (b.content k) :=
  contentWith_ensures (replacement_ensures _) _ _ 0 k hb

/-! ### Documents -/

theorem entityDeclaration_ensures (k : Cursor) :
    Ensures (fun r => r.1.Sound) (b.entityDeclaration k) := by
  have hentities : ∀ entities, Sound { b with entities } := fun _ =>
    ⟨hb.path, hb.outer, hb.declared, hb.pending⟩
  refine Ensures.bind_any fun k₁ => Ensures.ite_bind_any fun k₂ => Ensures.bind_any ?_
  rintro ⟨name, k₃⟩
  refine Ensures.bind_any fun k₄ => Ensures.bind_any ?_
  rintro ⟨definition, k₅⟩
  refine Ensures.bind_any fun k₆ => .ok ?_
  cases definition with
  | none => exact hb
  | some text => exact hentities _

omit hb in
theorem internalSubset_ensures (start : Position) (fuel : Nat) : ∀ {b : Builder} (k : Cursor),
    b.Sound → Ensures (fun r => r.1.Sound) (b.internalSubset start fuel k) := by
  induction fuel with
  | zero => exact fun _ hb => .ok hb
  | succ fuel ih =>
    intro b k hb
    unfold internalSubset
    refine .ite (fun _ => .ok hb) fun _ => .ite (fun _ => ?_) fun _ => ?_
    · exact Ensures.bind (entityDeclaration_ensures hb _) fun r hr => ih _ hr
    refine .ite (fun _ => ?_) fun _ => .ite (fun _ => ?_) fun _ => ?_
    · exact Ensures.bind (comment_ensures hb _) fun r hr => ih _ hr
    · exact Ensures.bind (instruction_ensures hb _) fun r hr => ih _ hr
    refine .ite (fun _ => ?_) fun _ => .ite (fun _ => ?_) fun _ => .error _
    · exact Ensures.bind_any fun k' => .ok hb
    · split
      · exact ih _ hb
      · exact .error _

theorem doctype_ensures (k : Cursor) : Ensures (fun r => r.1.Sound) (b.doctype k) := by
  refine Ensures.bind_any fun k₁ => Ensures.bind_any fun k₂ => Ensures.ite_bind_any fun k₃ => ?_
  simp only []
  split
  · exact .error _
  · exact .ok hb
  · exact internalSubset_ensures _ _ _ hb
  · exact .error _

omit hb in
theorem miscellany_ensures (fuel : Nat) : ∀ {b : Builder} (k : Cursor), b.Sound →
    Ensures (fun r => r.1.Sound) (b.miscellany fuel k) := by
  induction fuel with
  | zero => exact fun _ hb => .ok hb
  | succ fuel ih =>
    intro b k hb
    refine .ite (fun _ => ?_) fun _ => .ite (fun _ => ?_) fun _ => .ok hb
    · exact Ensures.bind (comment_ensures hb _) fun r hr => ih _ hr
    · exact Ensures.bind (instruction_ensures hb _) fun r hr => ih _ hr

theorem typed_ensures (k : Cursor) : Ensures (fun r => r.1.Sound) (b.typed k) :=
  .ite (fun _ => Ensures.bind (doctype_ensures hb k) fun _ hr => miscellany_ensures _ _ hr)
    fun _ => .ok hb

theorem outermost_ensures (k : Cursor) : Ensures (fun r => r.1.Sound) (b.outermost k) := by
  refine .ite (fun _ => ?_) fun _ => .ok hb
  refine Ensures.bind (startTag_ensures hb _ k) ?_
  rintro ⟨tagEnd, b', k'⟩ hb'
  exact .ite (fun _ => content_ensures hb' k') fun _ => .ok hb'

theorem finish_ensures : Ensures (fun xs => ∀ x ∈ xs, x.Sound []) b.finish := by
  refine .ite (fun _ => .error _) fun _ => .ite (fun _ => .error _) fun _ => .ok ?_
  exact fun x hx => hb.outer x (List.mem_reverse.mp hx)

end Builder

/-- The nodes of a document keep the rules they were read under. -/
theorem readDocument_ensures (text : String) :
    Ensures (fun xs => ∀ x ∈ xs, x.Sound []) (readDocument text) := by
  refine Ensures.ite_bind_any fun k => ?_
  refine Ensures.bind (Builder.miscellany_ensures _ k Builder.sound_empty) fun r₁ h₁ => ?_
  refine Ensures.bind (Builder.typed_ensures h₁ _) fun r₂ h₂ => ?_
  refine Ensures.bind (Builder.outermost_ensures h₂ _) fun r₃ h₃ => ?_
  refine Ensures.bind (Builder.miscellany_ensures _ _ h₃) fun r₄ h₄ => ?_
  exact .ite (fun _ => .error _) fun _ => Builder.finish_ensures h₄

end Xml
end GraphFolding
