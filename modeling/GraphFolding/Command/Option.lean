/-
The options of the command line.

* `Task` — the three tasks;
* `Level`, `Key` — where options may stand, and the options with their spellings;
* `Value.ofString` — the value that a text is for an option.
-/
import GraphFolding.Number.Decimal
namespace GraphFolding.Command

/-- What the format of a snapshot is. -/
inductive OutputFormat where
  | svg
  | png
  deriving DecidableEq, Repr

/-- The format that a word names. -/
def OutputFormat.ofWord? : String → Option OutputFormat
  | "svg" => some .svg
  | "png" => some .png
  | _ => none

/-- The tasks. -/
inductive TaskName where
  | prepare
  | fold
  | clusters
  deriving DecidableEq, Repr

/-- The word for a task. -/
def TaskName.word : TaskName → String
  | prepare => "prepare"
  | fold => "fold"
  | clusters => "clusters"

/-- All tasks. -/
def TaskName.all : List TaskName := [.prepare, .fold, .clusters]

/-- The task that a word names. -/
def TaskName.ofWord? (word : String) : Option TaskName :=
  TaskName.all.find? fun task => task.word = word

/-- The options. -/
inductive Key where
  | config
  | verbose
  | help
  | version
  | input
  | output
  | script
  | noStyle
  | format
  | click
  | width
  | height
  deriving DecidableEq, Repr

namespace Key

/-- The spelling of an option after two dashes. -/
def long : Key → String
  | config => "configFile"
  | verbose => "verbose"
  | help => "help"
  | version => "version"
  | input => "input"
  | output => "output"
  | script => "script"
  | noStyle => "no-style"
  | format => "outputFormat"
  | click => "click"
  | width => "width"
  | height => "height"

/-- The letter of an option after one dash. -/
def short? : Key → Option Char
  | config => some 'c'
  | verbose => some 'v'
  | help => some 'h'
  | version => some 'V'
  | input => some 'i'
  | output => some 'o'
  | format => some 'e'
  | width => some 'w'
  | height => some 'H'
  | script | noStyle | click => none

/-- Whether an option has a value. -/
def takesValue : Key → Bool
  | verbose | help | version | noStyle => false
  | _ => true

/-- Whether an option may be given again. -/
def isRepeatable : Key → Bool
  | verbose | click => true
  | _ => false

end Key

/-- Where options stand: before the word for a task, or after it. -/
inductive Level where
  | top
  | task (name : TaskName)
  deriving DecidableEq, Repr

namespace Level

/-- The options that are known somewhere. -/
def keys : Level → List Key
  | top => [.config, .verbose, .help, .version]
  | task .prepare => [.input, .output, .script, .noStyle, .config, .verbose, .help]
  | task .fold =>
    [.input, .output, .format, .click, .width, .height, .config, .verbose, .help]
  | task .clusters => [.input, .config, .verbose, .help]

/-- The option that a spelling after two dashes names. -/
def ofLong? (level : Level) (name : List Char) : Option Key :=
  level.keys.find? fun key => key.long.toList = name

/-- The option that a letter names. -/
def ofShort? (level : Level) (letter : Char) : Option Key :=
  level.keys.find? fun key => key.short? = some letter

end Level

/-- Why arguments ask for no task. -/
inductive ArgumentError where
  | help
  | version
  | unknownArgument
  | unknownTask
  | invalidValue
  | unreadableValue
  | unwantedValue
  | repeatedOption
  | missingOption
  | missingTask
  | nothingGiven
  deriving DecidableEq, Repr

/-- The value of an option. -/
inductive Value where
  | text (s : String)
  | format (f : OutputFormat)
  | length (x : Binary)
  deriving DecidableEq, Repr

/-- The value that a text is for an option: paths are not empty, a format is one of two
words, and a length is a decimal numeral. -/
def Value.ofString (key : Key) (written : String) : Except ArgumentError Value :=
  match key with
  | .config | .input | .output =>
    if written.isEmpty then .error .invalidValue else .ok (.text written)
  | .format =>
    match OutputFormat.ofWord? written with
    | some f => .ok (.format f)
    | none => .error .invalidValue
  | .width | .height =>
    match Decimal.ofString? written with
    | some d => .ok (.length (d.toBinary .single))
    | none => .error .unreadableValue
  | _ => .ok (.text written)

end GraphFolding.Command
