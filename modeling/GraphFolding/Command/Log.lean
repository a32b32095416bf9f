/-
The log of a run.

* `LogEvent` — what is worth a line;
* `LogEvent.line` — the line;
* `shown` — the lines that a verbosity calls for.
-/
import GraphFolding.Folding.Snapshot
import GraphFolding.Text.Quoted
namespace GraphFolding.Command

/-- How much a line matters. -/
inductive LogLevel where
  | warning
  | detail
  | trace
  deriving DecidableEq, Repr

/-- What is worth a line. -/
inductive LogEvent where
  | wired (headers silent placeholders : Nat)
  | visibility (t : Toggle)
  | toggled (t : Toggle)
  | clicked (cluster : String) (clusters : List String)
  | skipped (cluster : String)
  deriving DecidableEq, Repr

namespace LogLevel

/-- The word for a level. -/
def word : LogLevel → String
  | warning => "WARN"
  | detail => "DEBUG"
  | trace => "TRACE"

/-- The least verbosity at which lines of a level are shown. -/
def verbosity : LogLevel → Nat
  | warning => 0
  | detail => 1
  | trace => 2

end LogLevel

namespace LogEvent

/-- How much an event matters. -/
def level : LogEvent → LogLevel
  | wired .. | visibility .. | clicked .. => .detail
  | toggled .. => .trace
  | skipped .. => .warning

/-- The part of the program that an event comes from. -/
def origin : LogEvent → String
  | wired .. => "cluster_fold::interact"
  | visibility .. | toggled .. => "cluster_fold::visibility"
  | clicked .. => "cluster_fold::render"
  | skipped .. => "cluster_fold::cli"

/-- What an event says. -/
def text : LogEvent → String
  | wired headers silent placeholders =>
    "document wired headers=" ++ toString headers ++ " silent=" ++ toString silent ++
      " placeholders=" ++ toString placeholders
  | visibility t =>
    "set cluster visibility cluster=" ++ Text.quoted t.cluster ++ " visible=" ++
      toString t.visible ++ " triggered=" ++ toString t.triggered
  | toggled t =>
    "cluster toggled cluster=" ++ Text.quoted t.cluster ++ " members=" ++
      toString t.members ++ " placeholders=" ++ toString t.placeholders
  | clicked cluster others =>
    "clicked cluster=" ++ cluster ++ " toggled=[" ++
      ", ".intercalate (others.map Text.quoted) ++ "]"
  | skipped cluster => "no header link for cluster, skipped cluster=" ++ cluster

/-- The line of an event. -/
def line (e : LogEvent) : String := e.level.word ++ " " ++ e.origin ++ ": " ++ e.text

/-- The event of a wiring. -/
def ofWiring (w : Wiring) : LogEvent :=
  .wired w.headers.length w.silent.length w.placeholders.length

/-- The events of a click: two for each cluster shown or hidden, and one for all. -/
def ofClick (cluster : String) (o : ClickOutcome) : List LogEvent :=
  o.toggles.flatMap (fun t => [.visibility t, .toggled t]) ++ [.clicked cluster o.toggled]

/-- The events of a snapshot, the clusters without a header last. -/
def ofSnapshot (s : Snapshot) : List LogEvent :=
  ofWiring s.wiring :: s.clicks.flatMap (fun (cluster, o) => ofClick cluster o) ++
    s.unknown.map .skipped

end LogEvent

/-- The lines that a verbosity calls for. -/
def shown (verbosity : Nat) (events : List LogEvent) : List String :=
  (events.filter fun e => e.level.verbosity ≤ verbosity).map LogEvent.line

end GraphFolding.Command
