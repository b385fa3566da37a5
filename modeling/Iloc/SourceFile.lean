namespace Iloc

/-!
# Source files

A source text is the content of a file, read as strict UTF-8.  Nothing is taken
off it, not even a byte order mark.  A file that cannot be read gives an error
with the path as the user wrote it and a cause in the words of the system.
-/

/-- Reasons for which a file cannot be read as text. -/
inductive ReadCause where
  | notFound
  | notADirectory
  | isADirectory
  | nameTooLong
  | nulInPath
  | invalidUtf8
  /-- Any other failure, in the words of the system. -/
  | other (description : String)
  deriving Repr, DecidableEq

namespace ReadCause

/-- The words of the system for a cause. -/
def text : ReadCause → String
  | .notFound => "No such file or directory (os error 2)"
  | .notADirectory => "Not a directory (os error 20)"
  | .isADirectory => "Is a directory (os error 21)"
  | .nameTooLong => "File name too long (os error 36)"
  | .nulInPath => "file name contained an unexpected NUL byte"
  | .invalidUtf8 => "stream did not contain valid UTF-8"
  | .other description => description

end ReadCause

/-- A failure to read a source file. -/
structure ReadError where
  path : String
  cause : ReadCause
  deriving Repr, DecidableEq

namespace ReadError

/-- The failure as it is told to the user. -/
def message (error : ReadError) : String :=
  s!"could not read {error.path}: {error.cause.text}"

end ReadError

/-- The most bytes that one component of a path can have. -/
def maxComponentBytes : Nat :=
  255

/-- The most bytes that a whole path can have. -/
def maxPathBytes : Nat :=
  4095

/-- What is wrong with a path whatever files there are, if anything is. -/
def pathFault? (path : String) : Option ReadCause :=
  if path.toList.contains '\x00' then
    some .nulInPath
  else if path = "" then
    some .notFound
  else if path.utf8ByteSize > maxPathBytes then
    some .nameTooLong
  else
    none

/-- The text that the bytes of a file encode. -/
def decodeSource (content : ByteArray) : Except ReadCause String :=
  match String.fromUTF8? content with
  | some source => .ok source
  | none => .error .invalidUtf8

end Iloc
