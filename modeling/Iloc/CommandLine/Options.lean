import Iloc.CommandLine.Mode
import Iloc.Text.ControlSequence

namespace Iloc.CommandLine

/-!
# Options

Arguments are read from left to right.  An argument of two hyphens ends the
flags; a single hyphen is a file name; any other argument that starts with a
hyphen is a long flag or a group of short ones.  The first argument that is
wrong, or that asks for help or for the version, decides the answer at once.

A file name is taken note of where it stands but is looked at later, when a
flag follows or the arguments end.  This is when an empty name is found out, so
an unknown flag or a second name after it is complained about first.
-/

/-- The flags of the program. -/
inductive Flag where
  | scan
  | parse
  | dump
  | plain
  | help
  | version
  deriving Repr, DecidableEq

namespace Flag

/-- The flag that a letter stands for in a group of short flags. -/
def ofLetter? : Char → Option Flag
  | 's' => some .scan
  | 'p' => some .parse
  | 'r' => some .dump
  | 'h' => some .help
  | 'V' => some .version
  | _ => none

/-- The flag of a long name.  Long names cannot be abbreviated. -/
def ofName? : String → Option Flag
  | "plain" => some .plain
  | "help" => some .help
  | "version" => some .version
  | _ => none

/-- How a flag is named in an error. -/
def spelling : Flag → String
  | .scan => "-s"
  | .parse => "-p"
  | .dump => "-r"
  | .plain => "--plain"
  | .help => "--help"
  | .version => "--version"

end Flag

/-- What can be wrong with the arguments. -/
inductive UsageError where
  /-- No file is named. -/
  | missingFile
  /-- The name of the file is empty. -/
  | emptyFile
  /-- A flag that does not exist, or a file after the first. -/
  | unexpectedArgument (argument : String)
  /-- A flag that is given twice. -/
  | repeatedFlag (flag : Flag)
  /-- A flag with a value, which no flag takes. -/
  | unexpectedValue (flag : Flag) (value : String)
  deriving Repr, DecidableEq

namespace UsageError

/-- The complaint about an error.  Of an argument it quotes the printed part. -/
def message : UsageError → String
  | .missingFile =>
      "the following required arguments were not provided:"
  | .emptyFile =>
      "a value is required for '<FILE>' but none was supplied"
  | .unexpectedArgument argument =>
      s!"unexpected argument '{Text.printedPart argument}' found"
  | .repeatedFlag flag =>
      s!"the argument '{flag.spelling}' cannot be used multiple times"
  | .unexpectedValue flag value =>
      s!"unexpected value '{Text.printedPart value}' " ++
        s!"for '{flag.spelling}' found; no more were expected"

/--
The first line of the complaint, in case an argument holds line feeds.  Those
who only want to know what is wrong read no further.
-/
def headline (error : UsageError) : String :=
  String.ofList (error.message.toList.takeWhile (· != '\n'))

end UsageError

/-- What the program is asked to do with which file. -/
structure Options where
  modes : ModeFlags
  /-- Whether a program is dumped in plain lines instead of a table. -/
  plain : Bool
  file : String
  deriving Repr, DecidableEq

/-- Answers that are given without looking at a file. -/
inductive EarlyAnswer where
  | help
  | version
  | usage (error : UsageError)
  deriving Repr, DecidableEq

/-- What has been taken note of among the arguments read so far. -/
structure Notes where
  flags : List Flag
  file? : Option String
  /-- Whether the argument that ends the flags has been read. -/
  flagsEnded : Bool
  deriving Repr, DecidableEq

namespace Notes

/-- Before the first argument there is nothing to note. -/
def blank : Notes where
  flags := []
  file? := none
  flagsEnded := false

/-- Take note of a flag, unless it decides the answer. -/
def addFlag
    (notes : Notes)
    (flag : Flag) :
    Except EarlyAnswer Notes :=
  if notes.file? = some "" then
    .error (.usage .emptyFile)
  else
    match flag with
    | .help => .error .help
    | .version => .error .version
    | flag =>
        if flag ∈ notes.flags then
          .error (.usage (.repeatedFlag flag))
        else
          .ok { notes with flags := flag :: notes.flags }

/-- Take note of a file name, of which there can be only one. -/
def addFile
    (notes : Notes)
    (name : String) :
    Except EarlyAnswer Notes :=
  if notes.file?.isSome then
    .error (.usage (.unexpectedArgument name))
  else
    .ok { notes with file? := some name }

/-- Take note of the flags of a group, letter by letter. -/
def addLetters
    (notes : Notes) :
    List Char → Except EarlyAnswer Notes
  | [] => .ok notes
  | letter :: letters =>
      match Flag.ofLetter? letter with
      | none => .error (.usage (.unexpectedArgument s!"-{letter}"))
      | some flag => do
          let notes ← notes.addFlag flag
          notes.addLetters letters

/-- Take note of a long flag, given by what follows its hyphens. -/
def addLong
    (notes : Notes)
    (body : List Char) :
    Except EarlyAnswer Notes :=
  let name := String.ofList (body.takeWhile (· != '='))
  match Flag.ofName? name, body.dropWhile (· != '=') with
  | none, _ =>
      .error (.usage (.unexpectedArgument s!"--{name}"))
  | some flag, [] =>
      notes.addFlag flag
  | some flag, _ :: value =>
      .error (.usage (.unexpectedValue flag (String.ofList value)))

/-- Take note of one argument. -/
def add
    (notes : Notes)
    (argument : String) :
    Except EarlyAnswer Notes :=
  if notes.flagsEnded then
    notes.addFile argument
  else
    match argument.toList with
    | ['-', '-'] => .ok { notes with flagsEnded := true }
    | '-' :: '-' :: body => notes.addLong body
    | '-' :: letter :: letters => notes.addLetters (letter :: letters)
    | _ => notes.addFile argument

/-- The options that all arguments together amount to. -/
def toOptions
    (notes : Notes) :
    Except EarlyAnswer Options :=
  match notes.file? with
  | none => .error (.usage .missingFile)
  | some "" => .error (.usage .emptyFile)
  | some file =>
      .ok {
        modes := {
          scan := .scan ∈ notes.flags
          parse := .parse ∈ notes.flags
          dump := .dump ∈ notes.flags
        }
        plain := .plain ∈ notes.flags
        file := file
      }

end Notes

namespace Options

/-- The options of a list of arguments, or the answer that one of them gives. -/
def ofArguments
    (arguments : List String) :
    Except EarlyAnswer Options := do
  let notes ← arguments.foldlM Notes.add .blank
  notes.toOptions

end Options

end Iloc.CommandLine
