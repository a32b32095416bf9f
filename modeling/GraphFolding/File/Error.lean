/-
Failures of files, and the text of a file.

* `FileError.message` — the text that names a failure;
* `decodeText` — the text that the bytes of a file are the UTF-8 form of.
-/
namespace GraphFolding

/-- Why a file cannot be read or written. -/
inductive FileError where
  | notFound
  | notDirectory
  | isDirectory
  | nameTooLong
  | noSpace
  | outOfMemory
  /-- The bytes are no text. -/
  | notText
  /-- A failure of another kind, with its text. -/
  | other (text : String)
  deriving DecidableEq, Repr

/-- The text that names a failure. -/
def FileError.message : FileError → String
  | notFound => "No such file or directory (os error 2)"
  | notDirectory => "Not a directory (os error 20)"
  | isDirectory => "Is a directory (os error 21)"
  | nameTooLong => "File name too long (os error 36)"
  | noSpace => "No space left on device (os error 28)"
  | outOfMemory => "out of memory"
  | notText => "stream did not contain valid UTF-8"
  | other text => text

/-- The text that bytes are the UTF-8 form of. -/
def decodeText (bytes : ByteArray) : Except FileError String :=
  match String.fromUTF8? bytes with
  | some text => .ok text
  | none => .error .notText

end GraphFolding
