/-
Where the result of a run goes.

A run fails before it prints or saves anything, or it prints its result or saves it:

* `Task.plain` — a task with its result as a text to be printed;
* `Task.Makes`, `perform_cases` — what a task makes of settings and a source, in terms of the text
  that the plain task prints;
* `Surroundings.Delivers`, `all_or_nothing` — a whole run, whatever lies around it;
* `Directory.get?_insert`, `Directory.of_write`, `changed_by_run` — in a directory, the one file
  that a run may change.
-/
import GraphFolding.Command.Run
import GraphFolding.Proofs.AttributeChange
namespace GraphFolding

/-! ### Tasks -/

namespace Command

namespace Task

/-- The path that the result of a task goes to. -/
def output? : Task → Option String
  | prepare _ output .. | fold _ output .. => output
  | clusters _ => none

/-- Whether the result of a task is a picture. -/
def isPicture : Task → Bool
  | fold _ _ _ .png .. => true
  | _ => false

/-- The same task with its result as a text to be printed. -/
def plain : Task → Task
  | prepare input _ script noStyle => prepare input none script noStyle
  | fold input _ clicks _ width height => fold input none clicks .svg width height
  | clusters input => clusters input

theorem inputPath?_plain (t : Task) : t.plain.inputPath? = t.inputPath? := by
  cases t <;> rfl

/-- What a task makes where the plain task prints a text: without a path the same text, with a path
a file that holds it or, for a picture, what the renderer makes of the drawing with this text. -/
inductive Makes (render : Renderer Failure Content) (t : Task) (text : String) : Output → Prop
  | print (hpath : t.output? = none) (htext : t.isPicture = false) :
    Makes render t text (.print text)
  | save {path : String} (hpath : t.output? = some path) (htext : t.isPicture = false) :
    Makes render t text (.save path (.ofText text))
  | picture {path : String} {d : Drawing} {canvas : Canvas} {content : Content}
    (hpath : t.output? = some path) (hpicture : t.isPicture = true) (hdrawing : d.text = text)
    (hdraw : render.draw .picture d canvas = .ok content) : Makes render t text (.save path content)

theorem makes_ofText {render : Renderer Failure Content} {t : Task} {output : Option String}
    (hpath : t.output? = output) (htext : t.isPicture = false) (text : String) :
    t.Makes render text (.ofText output text) := by
  cases output with
  | none => exact .print hpath htext
  | some path => exact .save hpath htext

theorem Makes.output?_eq {render : Renderer Failure Content} {t : Task} {text path : String}
    {content : Content} (h : t.Makes render text (.save path content)) :
    t.output? = some path := by
  cases h with
  | save hpath => exact hpath
  | picture hpath => exact hpath

end Task

/-- The same arguments with the plain task. -/
def Arguments.plain (a : Arguments) : Arguments := { a with task := a.task.plain }

section Tasks

variable (render : Renderer Failure Content)

/-- A picture goes to a path, or there is none. -/
theorem pictureOf_cases (d : Drawing) (canvas : Canvas) (output : Option String) :
    (∃ f, pictureOf render d canvas output = .error f) ∨
    ∃ path content, output = some path ∧ render.draw .picture d canvas = .ok content ∧
      pictureOf render d canvas output = .ok (.save path content) := by
  cases output with
  | none => exact .inl ⟨.noPicturePath, rfl⟩
  | some path =>
    rw [pictureOf]
    rcases render.draw .picture d canvas with f | content
    · exact .inl ⟨f, rfl⟩
    · exact .inr ⟨path, content, rfl, rfl, rfl⟩

/-- A task fails, or it makes something while the plain task makes a text, with the same events. -/
theorem perform_cases (settings : Settings) (source : String) (t : Task) :
    (∃ events f, perform render settings source t = (events, .error f)) ∨
    ∃ events text output,
      perform render settings source t.plain = (events, .ok (.print text)) ∧
      perform render settings source t = (events, .ok output) ∧ t.Makes render text output := by
  cases t with
  | prepare input output script noStyle =>
    simp only [Task.plain, perform, prepareText]
    rcases Drawing.ofString source with e | d
    · exact .inl ⟨_, _, rfl⟩
    · simp only []
      rcases d.prepare settings.fold settings.style ⟨!noStyle, script⟩ with _ | ⟨d, w⟩
      · exact .inl ⟨_, _, rfl⟩
      · exact .inr ⟨_, _, _, rfl, rfl, Task.makes_ofText rfl rfl d.text⟩
  | fold input output clicks format width height =>
    simp only [Task.plain, perform, foldText]
    rcases snapshot source _ clicks with e | s
    · exact .inl ⟨_, _, rfl⟩
    · cases format with
      | svg => exact .inr ⟨_, _, _, rfl, rfl, Task.makes_ofText rfl rfl s.drawing.text⟩
      | png =>
        rcases pictureOf_cases render s.drawing (resized settings.canvas width height) output with
          ⟨f, hf⟩ | ⟨path, content, hpath, hdraw, hsave⟩
        · exact .inl ⟨LogEvent.ofSnapshot s, f, by simp only [hf]⟩
        · exact .inr ⟨LogEvent.ofSnapshot s, _, _, rfl, by simp only [hsave],
            .picture hpath rfl rfl hdraw⟩
  | clusters input =>
    simp only [Task.plain, perform, listText]
    rcases Drawing.ofString source with e | d
    · exact .inl ⟨_, _, rfl⟩
    · exact .inr ⟨_, _, _, rfl, rfl, .print rfl rfl⟩

/-- Whether settings and source can be read does not depend on what is to be done with them. -/
theorem execute_cases (config : Option (String × Except FileError ByteArray))
    (input : Except FileError ByteArray) :
    (∃ f, ∀ t, execute render t config input = ([], .error f)) ∨
    ∃ settings source, ∀ t, execute render t config input = perform render settings source t := by
  unfold execute
  rcases loadSettings config with f | settings
  · exact .inl ⟨f, fun _ => rfl⟩
  · rcases input.bind decodeText with e | source
    · exact .inl ⟨.input e, fun _ => rfl⟩
    · exact .inr ⟨settings, source, fun _ => rfl⟩

end Tasks

/-! ### Runs -/

theorem Failure.code_ne_zero (f : Failure) : f.code ≠ 0 := by
  unfold Failure.code
  split <;> decide

namespace Surroundings

variable {D : Type} (s : Surroundings D)

/-- A report of a run that printed nothing and changed nothing. -/
def Untouched (report : Report D) : Prop :=
  report.printed = .empty ∧ report.directory = s.directory

/-- A report of a run that printed a text and changed nothing. -/
def Printed (text : String) (report : Report D) : Prop :=
  report.code = 0 ∧ report.printed = text.toUTF8 ∧ report.directory = s.directory

/-- A report of a run that brought something to its one place: a text was printed, or a content
was written to a path and nothing else was done. -/
def Delivers (report : Report D) : Output → Prop
  | .print text => s.Printed text report
  | .save path content => report.code = 0 ∧
    s.write path content = .ok ⟨report.directory, report.printed⟩

/-- Bringing something to its place succeeds, or the run fails. -/
theorem deliver_cases (log : List String) (output : Output) :
    (∃ f, s.deliver log (.ok output) = s.failed log f) ∨
    s.Delivers (s.deliver log (.ok output)) output := by
  cases output with
  | print text => exact .inr ⟨rfl, rfl, rfl⟩
  | save path content =>
    rw [deliver]
    rcases hwrite : s.write path content with e | w
    · exact .inl ⟨.output e, rfl⟩
    · exact .inr ⟨rfl, hwrite⟩

variable {s}

theorem Delivers.code_eq_zero {report : Report D} {output : Output}
    (h : s.Delivers report output) : report.code = 0 := by
  cases output <;> exact h.1

variable (s)

theorem run_of_error {arguments : List String} {e : ArgumentError}
    (h : Arguments.ofList arguments = .error e) : s.run arguments =
      { code := e.code, printed := e.printed.toUTF8, directory := s.directory } := by
  rw [run, h]

theorem run_of_ok {arguments : List String} {a : Arguments}
    (h : Arguments.ofList arguments = .ok a) : s.run arguments = s.perform a := by
  rw [run, h]

/-- A run for a task fails, or delivers what the task makes.  The run for the plain task then
prints the text in question. -/
theorem run_cases (a : Arguments) :
    (∃ log f, s.perform a = s.failed log f) ∨
    ∃ text output, s.Printed text (s.perform a.plain) ∧ a.task.Makes s.render text output ∧
      s.Delivers (s.perform a) output := by
  -- Both runs read the same files.
  simp only [perform, Arguments.plain, Task.inputPath?_plain]
  rcases execute_cases s.render (a.config.map fun path => (path, s.readSettings path))
    (s.readInput a.task.inputPath?) with ⟨f, hall⟩ | ⟨settings, source, hall⟩
  · rw [hall]
    exact .inl ⟨_, f, rfl⟩
  · rw [hall, hall]
    rcases perform_cases s.render settings source a.task with
      ⟨events, f, hf⟩ | ⟨events, text, output, hplain, hdone, hmakes⟩
    · rw [hf]
      exact .inl ⟨_, f, rfl⟩
    · rw [hplain, hdone]
      rcases s.deliver_cases (shown a.verbosity events) output with ⟨f, hf⟩ | hdelivers
      · exact .inl ⟨_, f, hf⟩
      · exact .inr ⟨text, output, ⟨rfl, rfl, rfl⟩, hmakes, hdelivers⟩

/-- Runs are all or nothing.  Whatever there is in a directory and around it, whatever reading the
settings and the input gives, and whatever the renderer does: a run that ends with a code other
than 0 printed nothing and changed nothing.  A run that ends with 0 was asked for help or for the
version, and printed that and changed nothing, or else it delivered what its task makes to one
place; it is made of the text that is printed by the run with the same arguments for the plain
task. -/
theorem all_or_nothing (arguments : List String) :
    ((s.run arguments).code ≠ 0 → s.Untouched (s.run arguments)) ∧
    ((s.run arguments).code = 0 →
      (∃ e, Arguments.ofList arguments = .error e ∧ (e = .help ∨ e = .version) ∧
        s.Printed e.printed (s.run arguments)) ∨
      ∃ a text output, Arguments.ofList arguments = .ok a ∧
        s.Printed text (s.perform a.plain) ∧ a.task.Makes s.render text output ∧
        s.Delivers (s.run arguments) output) := by
  rcases harguments : Arguments.ofList arguments with e | a
  · rw [s.run_of_error harguments]
    cases e with
    | help => exact ⟨fun h => absurd rfl h, fun _ => .inl ⟨_, rfl, .inl rfl, rfl, rfl, rfl⟩⟩
    | version => exact ⟨fun h => absurd rfl h, fun _ => .inl ⟨_, rfl, .inr rfl, rfl, rfl, rfl⟩⟩
    | _ => exact ⟨fun _ => ⟨rfl, rfl⟩, fun h => absurd h (by simp [ArgumentError.code])⟩
  · rw [s.run_of_ok harguments]
    rcases s.run_cases a with ⟨log, f, hf⟩ | ⟨text, output, hplain, hmakes, hdelivers⟩
    · rw [hf]
      exact ⟨fun _ => ⟨rfl, rfl⟩, fun hcode => absurd hcode f.code_ne_zero⟩
    · exact ⟨fun hcode => absurd hdelivers.code_eq_zero hcode,
        fun _ => .inr ⟨a, text, output, rfl, hplain, hmakes, hdelivers⟩⟩

/-- A new file, and a snapshot as a picture that has nowhere to go. -/
theorem all_or_nothing_svg :
    let s := ofDirectory ⟨[("a.svg", .ofText "<svg/>")]⟩ .empty
    let prepare := ["prepare", "-i", "a.svg", "-o", "b.svg"]
    let fold := ["fold", "-i", "a.svg", "--click", "m", "-e", "png"]
    (s.run prepare).code = 0 ∧
      (∃ a text output, Arguments.ofList prepare = .ok a ∧ s.Printed text (s.perform a.plain) ∧
        a.task.Makes s.render text output ∧ s.Delivers (s.run prepare) output) ∧
      (s.run fold).code = 1 ∧ s.Untouched (s.run fold) := by
  intro s prepare fold
  have hprepare : (s.run prepare).code = 0 := by decide +kernel
  have hfold : (s.run fold).code = 1 := by decide +kernel
  have hdelivered := ((s.all_or_nothing prepare).2 hprepare).resolve_left
    (fun ⟨_, he, _⟩ => nomatch he)
  exact ⟨hprepare, hdelivered, hfold, (s.all_or_nothing fold).1 (by rw [hfold]; decide)⟩

end Surroundings

end Command

/-! ### Files of a directory -/

namespace Directory

theorem lookup_map_replace (name key : String) (content : Content)
    (files : List (String × Content)) :
    (files.map fun file => if file.1 = name then (name, content) else file).lookup key =
      if key = name then (files.lookup key).map (fun _ => content) else files.lookup key := by
  induction files with
  | nil => simp
  | cons file files ih =>
    obtain ⟨other, old⟩ := file
    by_cases ho : other = name
    · rw [List.map_cons, if_pos ho, lookup_cons_eq_ite, lookup_cons_eq_ite, ih, ho]
      by_cases hk : key = name <;> simp [hk]
    · rw [List.map_cons, if_neg ho, lookup_cons_eq_ite, lookup_cons_eq_ite, ih]
      by_cases hk : key = other
      · rw [if_pos hk, if_neg fun h => ho (hk.symm.trans h), if_pos hk]
      · rw [if_neg hk, if_neg hk]

/-- An inserted file is the only one that is new or changed. -/
theorem get?_insert (d : Directory) (name key : String) (content : Content) :
    (d.insert name content).get? key = if key = name then some content else d.get? key := by
  rw [insert]
  by_cases hold : (d.get? name).isSome = true
  · rw [if_pos hold, get?, lookup_map_replace, get?]
    by_cases hk : key = name
    · obtain ⟨old, hold⟩ := Option.isSome_iff_exists.mp hold
      rw [get?] at hold
      rw [if_pos hk, if_pos hk, hk, hold, Option.map_some]
    · rw [if_neg hk, if_neg hk]
  · rw [if_neg hold, get?, List.lookup_append, lookup_cons_eq_ite, get?]
    by_cases hk : key = name
    · rw [Option.not_isSome_iff_eq_none, get?] at hold
      rw [if_pos hk, if_pos hk, hk, hold, Option.none_or]
    · rw [if_neg hk, if_neg hk, List.lookup_nil, Option.or_none]

/-- What writing to a path does: it inserts one file, or it leaves the directory as it is. -/
theorem of_write {d : Directory} {path : String} {content : Content} {w : Written Directory}
    (h : d.write path content = .ok w) :
    (∃ name, d.locate path = .ok (.here, some name) ∧ w = ⟨d.insert name content, .empty⟩) ∨
    w.directory = d := by
  rw [write] at h
  rcases hplace : d.locate path with e | ⟨place, _ | name⟩
  · rw [hplace] at h
    exact nomatch h
  · rw [hplace] at h
    exact nomatch h
  · rw [hplace] at h
    simp only [bind, Except.bind] at h
    by_cases hslash : (Path.ofString path).endsInSlash = true
    · rw [if_pos hslash] at h
      exact nomatch h
    rw [if_neg hslash] at h
    -- A file, old or new, is inserted into the directory of the run and into no other.
    have hinserted : w = ⟨if place = .here then d.insert name content else d, .empty⟩ →
        (∃ name', (Except.ok (place, some name) : Except FileError _) = .ok (.here, some name') ∧
          w = ⟨d.insert name' content, .empty⟩) ∨ w.directory = d := by
      rintro rfl
      by_cases hhere : place = .here
      · rw [if_pos hhere, hhere]
        exact .inl ⟨name, rfl, rfl⟩
      · rw [if_neg hhere]
        exact .inr rfl
    rcases hfound : d.find place name with e | entry
    · rw [hfound] at h
      exact nomatch h
    · rw [hfound] at h
      cases entry with
      | directory => exact nomatch h
      | file => exact hinserted (Except.ok.inj h).symm
      | vacant => exact hinserted (Except.ok.inj h).symm
      | device device =>
        cases device with
        | full => exact nomatch h
        | _ =>
          obtain rfl := Except.ok.inj h
          exact .inr rfl

/-- Writing changes no file but the one that the path leads to, and nothing is printed then. -/
theorem changed_by_write {d : Directory} {path name : String} {content : Content}
    {w : Written Directory} (h : d.write path content = .ok w)
    (hchanged : w.directory.get? name ≠ d.get? name) :
    d.locate path = .ok (.here, some name) ∧ w.printed = .empty := by
  rcases of_write h with ⟨written, hplace, rfl⟩ | hsame
  · rw [get?_insert] at hchanged
    have hname : name = written := Decidable.not_not.mp fun hne => hchanged (if_neg hne)
    exact ⟨hname ▸ hplace, rfl⟩
  · exact absurd (by rw [hsame]) hchanged

end Directory

namespace Command

/-- In a directory a run changes one file at most, and only if it ends well: the one that its
output path leads to.  Nothing is printed then. -/
theorem changed_by_run (d : Directory) (standardInput : ByteArray) (arguments : List String)
    {name : String}
    (h : (run d standardInput arguments).directory.get? name ≠ d.get? name) :
    (run d standardInput arguments).code = 0 ∧
    (run d standardInput arguments).printed = .empty ∧
    ∃ a path, Arguments.ofList arguments = .ok a ∧ a.task.output? = some path ∧
      d.locate path = .ok (.here, some name) := by
  obtain ⟨s, hs⟩ : ∃ s, s = Surroundings.ofDirectory d standardInput := ⟨_, rfl⟩
  have hbefore : s.directory = d := by rw [hs]; rfl
  have hwrite : s.write = d.write := by rw [hs]; rfl
  rw [run, ← hs] at h ⊢
  rcases harguments : Arguments.ofList arguments with e | a
  · rw [s.run_of_error harguments] at h
    exact absurd (by rw [hbefore]) h
  · rw [s.run_of_ok harguments] at h ⊢
    rcases s.run_cases a with ⟨log, f, hf⟩ | ⟨text, output, -, hmakes, hdelivers⟩
    · exact absurd (by rw [hf, ← hbefore]; rfl) h
    · cases output with
      | print => exact absurd (by rw [hdelivers.2.2, hbefore]) h
      | save path content =>
        obtain ⟨hplace, hprinted⟩ := Directory.changed_by_write (hwrite ▸ hdelivers.2) h
        exact ⟨hdelivers.1, hprinted, a, path, rfl, hmakes.output?_eq, hplace⟩

end Command
end GraphFolding
