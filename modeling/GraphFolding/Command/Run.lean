/-
Runs of the program.

* `perform` — a task done on settings and the text of a drawing: what to print or to save,
  and the events on the way;
* `execute` — the same from the bytes of the settings file and of the input;
* `Surroundings` — what a run finds and can do outside: the files that it reads, and how one is
  written; `Surroundings.run` is a whole run in them, with its exit code;
* `run` — a whole run in a directory.

Everything that can fail comes before the one place where something is printed or saved.
-/
import GraphFolding.Command.Arguments
import GraphFolding.Command.Log
import GraphFolding.File.Access
import GraphFolding.Folding.Listing
import GraphFolding.Picture.Blank
import GraphFolding.Settings.File
namespace GraphFolding.Command

/-- Why a task fails. -/
inductive Failure where
  | load (path : String) (error : LoadError)
  | input (error : FileError)
  | drawing (error : ReadError)
  | noPicturePath
  | picture (error : PictureError)
  /-- The renderer fails, with its text. -/
  | renderer (text : String)
  | output (error : FileError)
  deriving DecidableEq, Repr

/-- The text that names a failure; a fault has none. -/
def Failure.message? : Failure → Option String
  | load _ (.file error) => some error.message
  | load path (.content error) => error.message?.map ("invalid config " ++ path ++ ": " ++ ·)
  | input error => some error.message
  | drawing error => error.message?
  | noPicturePath => some "Output path required for png output"
  | picture .invalidSize => some "Invalid render size"
  | picture (.fault _) => none
  | renderer text => some text
  | output error => some error.message

/-- The exit code of a failure. -/
def Failure.code (f : Failure) : Nat := if f.message?.isSome then 1 else 101

/-- The result of a task: a text to print, or a file to save. -/
inductive Output where
  | print (text : String)
  | save (path : String) (content : Content)
  deriving DecidableEq

/-- A text printed, or saved if there is a path. -/
def Output.ofText (path : Option String) (text : String) : Output :=
  match path with
  | some path => .save path (.ofText text)
  | none => .print text

namespace Task

/-- Whether a path is the one that stands for the standard input. -/
def isStandardInput (path : String) : Bool :=
  let p := Path.ofString path
  match p.steps with
  | .down name :: rest => !p.isAbsolute && name = ['-'] && rest.all (· = .stay)
  | _ => false

/-- The file that a task reads, if it is not the standard input. -/
def inputPath? : Task → Option String
  | prepare input .. | fold input .. | clusters input => input.filter (!isStandardInput ·)

end Task

/-- The renderer for drawings that show nothing, for files. -/
def blankContent : Renderer Failure Content := fun d width height =>
  .ok fun background => .ok (.picture (.blank d width height background))

/-- The canvas with another size. -/
def resized (c : Canvas) (width height : Option Binary) : Canvas :=
  { c with width := width.getD c.width, height := height.getD c.height }

/-- The drawing of a text prepared, as it is written. -/
def prepareText (settings : Settings) (source : String) (options : PrepareOptions)
    (output : Option String) : List LogEvent × Except Failure Output :=
  match Drawing.ofString source with
  | .error e => ([], .error (.drawing e))
  | .ok d =>
    match d.prepare settings.fold settings.style options with
    | none => ([], .error (.drawing .noSvg))
    | some (d, w) => ([.ofWiring w], .ok (.ofText output d.text))

/-- A drawing as a picture, which is always saved. -/
def pictureOf (render : Renderer Failure Content) (d : Drawing) (canvas : Canvas) :
    Option String → Except Failure Output
  | none => .error .noPicturePath
  | some path => do return .save path (← render.draw .picture d canvas)

/-- The drawing of a text after clicks. -/
def foldText (render : Renderer Failure Content) (settings : Settings) (source : String)
    (clicks : List String) (format : OutputFormat) (output : Option String) :
    List LogEvent × Except Failure Output :=
  match snapshot source settings clicks with
  | .error e => ([], .error (.drawing e))
  | .ok s =>
    (LogEvent.ofSnapshot s,
      match format with
      | .svg => .ok (.ofText output s.drawing.text)
      | .png => pictureOf render s.drawing settings.canvas output)

/-- The listing of the clusters of a text. -/
def listText (settings : Settings) (source : String) : List LogEvent × Except Failure Output :=
  match Drawing.ofString source with
  | .error e => ([], .error (.drawing e))
  | .ok d =>
    let (d, w) := d.wire settings.fold
    ([.ofWiring w], .ok (.print (listing d w settings.fold)))

/-- A task done on settings and the text of a drawing. -/
def perform (render : Renderer Failure Content) (settings : Settings) (source : String) :
    Task → List LogEvent × Except Failure Output
  | .prepare _ output script noStyle =>
    prepareText settings source ⟨!noStyle, script⟩ output
  | .fold _ output clicks format width height =>
    let settings := { settings with canvas := resized settings.canvas width height }
    foldText render settings source clicks format output
  | .clusters _ => listText settings source

/-- The settings of a file, or those of no file. -/
def loadSettings (config : Option (String × Except FileError ByteArray)) :
    Except Failure Settings :=
  match config with
  | none => .ok {}
  | some (path, bytes) => (Settings.ofFile path bytes).mapError (.load path)

/-- A task done on the bytes of the settings file and of the input. -/
def execute (render : Renderer Failure Content) (task : Task)
    (config : Option (String × Except FileError ByteArray))
    (input : Except FileError ByteArray) : List LogEvent × Except Failure Output :=
  match loadSettings config with
  | .error f => ([], .error f)
  | .ok settings =>
    match input.bind decodeText with
    | .error e => ([], .error (.input e))
    | .ok source => perform render settings source task

/-- How a run ends. -/
structure Report (D : Type) where
  code : Nat
  printed : ByteArray := .empty
  message : Option String := none
  log : List String := []
  /-- The directory after the run. -/
  directory : D

/-- The text of the version. -/
def versionText : String := "cfold 0.1.0\n"

/-- The text of the help. -/
def helpText : String :=
  "Collapse and expand clusters in Graphviz SVG output\n\n" ++
    "Usage: cfold [OPTIONS] <COMMAND>\n\n" ++
    "Commands:\n" ++
    "  prepare   Make a rendered SVG interactive\n" ++
    "  fold      Write a static snapshot with the given clusters clicked, in order\n" ++
    "  clusters  List clickable clusters\n"

namespace ArgumentError

/-- What arguments that ask for no task print. -/
def printed : ArgumentError → String
  | help => helpText
  | version => versionText
  | _ => ""

/-- The exit code of arguments that ask for no task. -/
def code : ArgumentError → Nat
  | help | version => 0
  | _ => 2

end ArgumentError

/-- What a run finds and can do outside. -/
structure Surroundings (D : Type) where
  /-- The directory before the run, with all that lies in it and around it. -/
  directory : D
  /-- What reading the settings file at a path gives. -/
  readSettings : String → Except FileError ByteArray
  /-- What reading the input gives, from the file at a path or from the standard input. -/
  readInput : Option String → Except FileError ByteArray
  /-- What a content written to a path leaves. -/
  write : String → Content → Except FileError (Written D)
  /-- What draws pictures. -/
  render : Renderer Failure Content

namespace Surroundings

variable {D : Type} (s : Surroundings D)

/-- A run that failed and changed nothing. -/
def failed (log : List String) (f : Failure) : Report D :=
  { code := f.code, message := f.message?, log, directory := s.directory }

/-- The end of a task: its result is printed or saved. -/
def deliver (log : List String) : Except Failure Output → Report D
  | .error f => s.failed log f
  | .ok (.print text) => { code := 0, printed := text.toUTF8, log, directory := s.directory }
  | .ok (.save path content) =>
    match s.write path content with
    | .error e => s.failed log (.output e)
    | .ok w => { code := 0, printed := w.printed, log, directory := w.directory }

/-- A run for arguments that ask for a task. -/
def perform (a : Arguments) : Report D :=
  let config := a.config.map fun path => (path, s.readSettings path)
  let (events, result) := execute s.render a.task config (s.readInput a.task.inputPath?)
  s.deliver (shown a.verbosity events) result

/-- A whole run. -/
def run (arguments : List String) : Report D :=
  match Arguments.ofList arguments with
  | .error e => { code := e.code, printed := e.printed.toUTF8, directory := s.directory }
  | .ok a => s.perform a

/-- A directory and a standard input, where pictures are not painted. -/
def ofDirectory (d : Directory) (standardInput : ByteArray) : Surroundings Directory where
  directory := d
  readSettings := d.read standardInput
  readInput
    | some path => d.read standardInput path
    | none => .ok standardInput
  write := d.write
  render := blankContent

end Surroundings

/-- A whole run in a directory. -/
def run (d : Directory) (standardInput : ByteArray) (arguments : List String) :
    Report Directory :=
  (Surroundings.ofDirectory d standardInput).run arguments

end GraphFolding.Command
