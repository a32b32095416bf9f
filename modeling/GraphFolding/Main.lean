/-
The command line: files are read, the task is done, and its result is printed or saved.
-/
import GraphFolding.Command.Run
open GraphFolding GraphFolding.Command

/-- The failure that an operating system error is; of the errors about the type of a file,
the one with number 21 means a directory. -/
def fileError : IO.Error → FileError
  | .noFileOrDirectory .. => .notFound
  | .inappropriateType _ number _ => if number = 21 then .isDirectory else .notDirectory
  | e => .other (toString e)

/-- The bytes of a file. -/
def readFile (path : String) : IO (Except FileError ByteArray) := do
  match ← (IO.FS.readBinFile path).toBaseIO with
  | .ok bytes => return .ok bytes
  | .error e => return .error (fileError e)

/-- The bytes of the standard input. -/
def readInput : IO (Except FileError ByteArray) := do
  match ← (← IO.getStdin).readBinToEnd.toBaseIO with
  | .ok bytes => return .ok bytes
  | .error e => return .error (fileError e)

/-- The exit code after a failure, whose text goes to the standard error. -/
def reportFailure (f : Failure) : IO UInt32 := do
  if let some message := f.message? then
    IO.eprintln ("error: " ++ message)
  return UInt32.ofNat f.code

/-- A result printed or saved, and the exit code. -/
def deliverOutput : Except Failure Output → IO UInt32
  | .error f => reportFailure f
  | .ok (.print text) => do
    IO.print text
    return 0
  | .ok (.save path content) => do
    match ← (IO.FS.writeBinFile path content.toBytes).toBaseIO with
    | .ok _ => return 0
    | .error e => reportFailure (.output (fileError e))

/-- The program. -/
def main (arguments : List String) : IO UInt32 := do
  match Arguments.ofList arguments with
  | .error e =>
    IO.print e.printed
    return UInt32.ofNat e.code
  | .ok a =>
    let config ← a.config.mapM fun path => return (path, ← readFile path)
    let input ← match a.task.inputPath? with
      | some path => readFile path
      | none => readInput
    let (events, result) := execute blankContent a.task config input
    for line in shown a.verbosity events do
      IO.eprintln line
    deliverOutput result
