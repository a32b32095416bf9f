/-
What the readers of JSON texts give.

It does not depend on the place where a reader stands, only on the text:

* `Json.Gives`, `Json.Passes` — a reader gives a value, or fails, and stops where the rest begins;
* `Json.Cursor.passes_expectWord`, `Json.Cursor.passes_expectColon` — words and colons.
-/
import GraphFolding.Json.Reader
import GraphFolding.Proofs.JsonGrammar
import Mathlib.Data.List.TakeWhile
namespace GraphFolding.Json

open Data

/-! ### What readers give -/

/-- What a reader gives: a value, having stopped where the rest begins, or a failure. -/
def Gives {α : Type} (x : Except Error (α × Cursor)) (found? : Option α) (rest : List Char) :
    Prop :=
  match found? with
  | some a => ∃ k, x = .ok (a, k) ∧ k.rest = rest
  | none => ∃ e, x = .error e

/-- A reader that passes over something stops where the rest begins. -/
def Passes (x : Except Error Cursor) (rest : List Char) : Prop := ∃ k, x = .ok k ∧ k.rest = rest

section Rules

variable {α β : Type} {rest rest' : List Char}

theorem gives_ok {a : α} {k : Cursor} (h : k.rest = rest) : Gives (.ok (a, k)) (some a) rest :=
  ⟨k, rfl, h⟩

theorem gives_error (e : Error) : Gives (.error e : Except Error (α × Cursor)) none rest :=
  ⟨e, rfl⟩

theorem Gives.bind {x : Except Error (α × Cursor)} {f : α × Cursor → Except Error (β × Cursor)}
    {found? : Option α} {g : α → Option β} (hx : Gives x found? rest)
    (hf : ∀ a k, k.rest = rest → Gives (f (a, k)) (g a) rest') :
    Gives (x >>= f) (found?.bind g) rest' := by
  rcases found? with _ | a
  · obtain ⟨e, rfl⟩ := hx
    exact ⟨e, rfl⟩
  · obtain ⟨k, rfl, hk⟩ := hx
    exact hf a k hk

theorem Gives.map {x : Except Error (α × Cursor)} {found? : Option α} (hx : Gives x found? rest)
    (g : α → β) : Gives (x >>= fun y => pure (g y.1, y.2)) (found?.map g) rest := by
  rw [Option.map_eq_bind]
  exact hx.bind fun a k hk => gives_ok hk

/-- A step after a value that is known. -/
theorem Gives.bind_some {x : Except Error (α × Cursor)} {a : α}
    {f : α × Cursor → Except Error (β × Cursor)} {found? : Option β} (hx : Gives x (some a) rest)
    (hf : ∀ k, k.rest = rest → Gives (f (a, k)) found? rest') : Gives (x >>= f) found? rest' := by
  obtain ⟨k, rfl, hk⟩ := hx
  exact hf k hk

/-- The failure of a step is the failure of the whole. -/
theorem gives_bind_of_error {γ : Type} {x : Except Error γ} {f : γ → Except Error (β × Cursor)}
    (hx : ∃ e, x = .error e) : Gives (x >>= f) none rest := by
  obtain ⟨e, rfl⟩ := hx
  exact ⟨e, rfl⟩

theorem Passes.bind {x : Except Error Cursor} {f : Cursor → Except Error (β × Cursor)}
    {found? : Option β} (hx : Passes x rest) (hf : ∀ k, k.rest = rest → Gives (f k) found? rest') :
    Gives (x >>= f) found? rest' := by
  obtain ⟨k, rfl, hk⟩ := hx
  exact hf k hk

theorem Passes.bind_passes {x : Except Error Cursor} {f : Cursor → Except Error Cursor}
    (hx : Passes x rest) (hf : ∀ k, k.rest = rest → Passes (f k) rest') :
    Passes (x >>= f) rest' := by
  obtain ⟨k, rfl, hk⟩ := hx
  exact hf k hk

end Rules

/-! ### Blanks and words -/

namespace Cursor

theorem rest_advance {k : Cursor} {c : Char} {rest : List Char} (h : k.rest = c :: rest) :
    k.advance.rest = rest := by
  rw [advance, h]

theorem rest_skipWhile (p : Char → Bool) (text : List Char) : ∀ position,
    (skipWhile p position text).rest = text.dropWhile p := by
  induction text with
  | nil => exact fun _ => rfl
  | cons c rest ih =>
    intro position
    rw [skipWhile, List.dropWhile_cons]
    split_ifs
    · exact ih _
    · rfl

/-- What is passed over ends where a character stands that is not. -/
theorem rest_skipWhile_append {p : Char → Bool} {skipped rest : List Char}
    (hskipped : ∀ c ∈ skipped, p c = true) (hrest : ∀ c ∈ rest.head?, p c = false)
    (position : Position) : (skipWhile p position (skipped ++ rest)).rest = rest := by
  rw [rest_skipWhile, List.dropWhile_append_of_pos hskipped]
  rcases rest with _ | ⟨c, rest⟩
  · rfl
  · rw [List.dropWhile_cons_of_neg]
    simpa using hrest c rfl

theorem rest_skipBlanks {k : Cursor} {blanks rest : List Char} (hblanks : IsBlanks blanks)
    (h : k.rest = blanks ++ rest) (hrest : ∀ c ∈ rest.head?, isBlank c = false) :
    k.skipBlanks.rest = rest := by
  rw [skipBlanks, h, rest_skipWhile_append hblanks hrest]

/-- As `rest_skipBlanks`, where a character follows that is no blank. -/
theorem rest_skipBlanks_cons {k : Cursor} {blanks rest : List Char} {c : Char}
    (hblanks : IsBlanks blanks) (h : k.rest = blanks ++ c :: rest) (hc : isBlank c = false) :
    k.skipBlanks.rest = c :: rest :=
  rest_skipBlanks hblanks h fun x hx => by
    obtain rfl : c = x := by simpa using hx
    exact hc

theorem rest_skipDigits {k : Cursor} {digits rest : List Char}
    (hdigits : ∀ c ∈ digits, isDigit c = true) (h : k.rest = digits ++ rest)
    (hrest : ∀ c ∈ rest.head?, isDigit c = false) : k.skipDigits.rest = rest := by
  rw [skipDigits, h, rest_skipWhile_append hdigits hrest]

theorem passes_expectWord (word : List Char) : ∀ {k : Cursor} {rest : List Char},
    k.rest = word ++ rest → Passes (expectWord word k) rest := by
  induction word with
  | nil => exact fun h => ⟨_, rfl, h⟩
  | cons c word ih =>
    intro k rest h
    simp only [expectWord, h, List.cons_append, if_pos]
    exact ih (rest_advance h)

theorem passes_expectColon {k : Cursor} {blanks rest : List Char} (hblanks : IsBlanks blanks)
    (h : k.rest = blanks ++ ':' :: rest) : Passes k.expectColon rest := by
  have hcolon := rest_skipBlanks_cons hblanks h rfl
  simp only [expectColon, hcolon]
  exact ⟨_, rfl, rest_advance hcolon⟩

end Cursor
end GraphFolding.Json
