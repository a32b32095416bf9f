/-
Arguments read from left to right.

* `Reading` — the options given so far, and one that waits for its value;
* `scan` — the arguments of one level up to the word for a task;
* `Arguments.ofList` — what a list of arguments asks for.

A value that stands in an argument of its own is looked at only when the next option comes
or the arguments end, so an argument that is not known is reported first.
-/
import GraphFolding.Command.Option
namespace GraphFolding.Command

/-- The options given so far with their values, and the last one with what was given for
it, if it has not been looked at. -/
structure Reading where
  given : List (Key × Option Value) := []
  pending : Option (Key × Option String) := none

namespace Reading

/-- Whether an option waits for its value. -/
def isWaiting (r : Reading) : Bool :=
  match r.pending with
  | some (_, none) => true
  | _ => false

/-- Whether an option was given. -/
def has (r : Reading) (key : Key) : Bool := r.given.any (·.1 = key)

/-- How often an option was given. -/
def count (r : Reading) (key : Key) : Nat := r.given.countP (·.1 = key)

/-- The values of an option. -/
def values (r : Reading) (key : Key) : List Value :=
  r.given.filterMap fun (k, value) => if k = key then value else none

/-- The value of an option that is a text. -/
def text? (r : Reading) (key : Key) : Option String :=
  match r.values key with
  | .text s :: _ => some s
  | _ => none

/-- The value of an option that is a length. -/
def length? (r : Reading) (key : Key) : Option Binary :=
  match r.values key with
  | .length x :: _ => some x
  | _ => none

/-- The format that was given, or the first one. -/
def format (r : Reading) : OutputFormat :=
  match r.values .format with
  | .format f :: _ => f
  | _ => .svg

/-- The values of an option that are texts. -/
def texts (r : Reading) (key : Key) : List String :=
  (r.values key).filterMap fun
    | .text s => some s
    | _ => none

/-- An option with its value noted. -/
def note (r : Reading) (key : Key) (written : Option String) : Except ArgumentError Reading :=
  match key with
  | .help => .error .help
  | .version => .error .version
  | _ =>
    if key.takesValue && written.isNone then .error .invalidValue
    else if r.has key && !key.isRepeatable then .error .repeatedOption
    else do
      let value ← written.mapM (Value.ofString key)
      return { r with given := r.given ++ [(key, value)] }

/-- The pending option noted. -/
def settle (r : Reading) : Except ArgumentError Reading :=
  match r.pending with
  | none => .ok r
  | some (key, written) => ({ r with pending := none } : Reading).note key written

/-- An option noted, after the pending one. -/
def add (r : Reading) (key : Key) (written : Option String) : Except ArgumentError Reading := do
  (← r.settle).note key written

/-- An option that waits for its value, after the pending one was noted. -/
def await (r : Reading) (key : Key) : Except ArgumentError Reading := do
  return { (← r.settle) with pending := some (key, none) }

/-- An argument that begins with two dashes; a value may follow an equals sign. -/
def addLong (r : Reading) (level : Level) (argument : List Char) :
    Except ArgumentError Reading :=
  match level.ofLong? (argument.takeWhile (· ≠ '=')), argument.dropWhile (· ≠ '=') with
  | none, _ => .error .unknownArgument
  | some key, [] => if key.takesValue then r.await key else r.add key none
  | some key, _ :: value =>
    if key.takesValue then r.add key (some (String.ofList value)) else .error .unwantedValue

/-- The text without an equals sign at its start. -/
def withoutEquals : List Char → List Char
  | '=' :: rest => rest
  | text => text

/-- Letters after one dash: options without a value, and then perhaps one with the rest as
its value. -/
def addShort (r : Reading) (level : Level) : List Char → Except ArgumentError Reading
  | [] => .ok r
  | letter :: rest =>
    match level.ofShort? letter with
    | none => .error .unknownArgument
    | some key =>
      if !key.takesValue then do addShort (← r.add key none) level rest
      else if rest.isEmpty then r.await key
      else r.add key (some (String.ofList (withoutEquals rest)))

/-- An argument that stands alone: the value that is waited for, if there is one. -/
def addPlain (r : Reading) (level : Level) (argument : String) : Except ArgumentError Reading :=
  match r.pending with
  | some (key, none) => .ok { r with pending := some (key, some argument) }
  | _ => .error (if level = .top then .unknownTask else .unknownArgument)

/-- One argument more. -/
def addArgument (r : Reading) (level : Level) (argument : String) :
    Except ArgumentError Reading :=
  match argument.toList with
  | '-' :: '-' :: rest => r.addLong level rest
  | '-' :: letter :: rest => r.addShort level (letter :: rest)
  | _ => r.addPlain level argument

end Reading

/-- The outcome of asking for help, perhaps on a task. -/
def helpOn : List String → ArgumentError
  | [] => .help
  | [word] => if word = "help" || (TaskName.ofWord? word).isSome then .help else .unknownTask
  | _ => .unknownTask

/-- The fault of an argument after two lone dashes. -/
def strayArgument (level : Level) (argument : String) : ArgumentError :=
  if level = .top && argument ≠ "help" && (TaskName.ofWord? argument).isNone then .unknownTask
  else .unknownArgument

/-- The arguments of a level, up to the word for a task and what follows it. -/
def scan (level : Level) (r : Reading) :
    List String → Except ArgumentError (Reading × Option (TaskName × List String))
  | [] => .ok (r, none)
  | argument :: rest =>
    let isWord := level = .top && !r.isWaiting
    match if isWord then TaskName.ofWord? argument else none with
    | some task => .ok (r, some (task, rest))
    | none =>
      if isWord && argument = "help" then .error (helpOn rest)
      else if argument = "--" then
        match rest with
        | [] => .ok (r, none)
        | stray :: _ => .error (strayArgument level stray)
      else do scan level (← r.addArgument level argument) rest

/-- What to do. -/
inductive Task where
  /-- Write the prepared drawing. -/
  | prepare (input output script : Option String) (noStyle : Bool)
  /-- Write a snapshot after clicks on some clusters. -/
  | fold (input output : Option String) (clicks : List String) (format : OutputFormat)
      (width height : Option Binary)
  /-- List the clusters that can be clicked. -/
  | clusters (input : Option String)
  deriving DecidableEq, Repr

/-- What arguments ask for. -/
structure Arguments where
  config : Option String
  verbosity : Nat
  task : Task
  deriving DecidableEq, Repr

/-- The task that the options after its word describe. -/
def Task.ofReading (name : TaskName) (r : Reading) : Task :=
  match name with
  | .prepare => .prepare (r.text? .input) (r.text? .output) (r.text? .script) (r.has .noStyle)
  | .fold =>
    .fold (r.text? .input) (r.text? .output) (r.texts .click) r.format (r.length? .width)
      (r.length? .height)
  | .clusters => .clusters (r.text? .input)

/-- The options after the word for a task; a fold needs a click. -/
def readTask (name : TaskName) (arguments : List String) : Except ArgumentError Reading := do
  let (r, _) ← scan (.task name) {} arguments
  let r ← r.settle
  if name = .fold && !r.has .click then throw .missingOption
  return r

/-- The greatest verbosity. -/
def greatestVerbosity : Nat := 255

/-- What a list of arguments asks for.  Of the options that may stand on both sides of the
word for a task, those after it count. -/
def Arguments.ofList (arguments : List String) : Except ArgumentError Arguments := do
  match ← scan .top {} arguments with
  | (top, some (name, rest)) =>
    let own ← readTask name rest
    let top ← top.settle
    let verbosity := if own.has .verbose then own.count .verbose else top.count .verbose
    return {
      config := (own.text? .config).or (top.text? .config)
      verbosity := min greatestVerbosity verbosity
      task := .ofReading name own }
  | (top, none) =>
    let top ← top.settle
    throw (if top.given.isEmpty then .nothingGiven else .missingTask)

end GraphFolding.Command
