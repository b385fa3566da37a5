import Iloc.CommandLine.Help
import Iloc.CommandLine.Options
import Iloc.Listing
import Iloc.Scanner.Tokens
import Iloc.SourceFile
import Iloc.Validation

namespace Iloc.CommandLine

/-!
# Outcomes

The outcome of a run is its exit code, its standard output and the sequence of
notices on standard error.  It follows from the options and from what became of
reading the file.

Log records and diagnostics share standard error in the order in which they
occur.  The verbosity is consulted only when a record is about to be added to
the notices, so it cannot affect anything else.
-/

/-- Something told on standard error. -/
inductive Notice where
  | event (event : Event)
  | unreadable (error : ReadError)
  deriving Repr, DecidableEq

namespace Notice

/--
The text of a notice.  The log is written for terminals, with nothing in it
that would control one; diagnostics and failures quote their input as it is.
-/
def text : Notice → String
  | .event (.log record) => Text.printedPart record.text
  | .event (.report diagnostic) => diagnostic.text
  | .unreadable error => error.message

end Notice

/-- Everything that a run leaves behind. -/
structure Outcome where
  exitCode : UInt32
  stdout : String
  stderr : List Notice
  deriving Repr, DecidableEq

namespace Outcome

/-- The lines of standard error. -/
def stderrLines (outcome : Outcome) : List String :=
  outcome.stderr.flatMap fun notice => notice.text.splitOn "\n"

end Outcome

/-- The exit code of a run whose input cannot be used. -/
def unusable : UInt32 :=
  2

/-- The exit code of a run that parses a text. -/
def verdict (report : Report) : UInt32 :=
  if report.isSuccess then 0 else 1

/-- The program of an accepted text, in the layout that the options select. -/
def dumpText
    (plain : Bool)
    (program : Program) :
    String :=
  if plain then
    program.plainDump
  else
    Text.unlines [program.tableDump]

/-- What a parse writes on standard output. -/
def reportText
    (options : Options)
    (report : Report) :
    String :=
  let dumped :=
    options.modes.mode = .dump ∧ report.isSuccess = true
  Text.unlines [report.summary] ++
    if dumped then dumpText options.plain report.program else ""

/-- What an empty console hears while a mode is chosen. -/
def openingEvents
    (verbosity : Verbosity)
    (options : Options) :
    Array Event :=
  (options.modes.records.map Event.log).foldl
    (Listener.filtered verbosity).hear #[]

/-- List the tokens of a text, each of which the scanner logs. -/
def runScan
    (verbosity : Verbosity)
    (opening : Array Event)
    (source : String) :
    Outcome :=
  let tokens := scan source
  let events :=
    (tokens.map fun token => Event.log (.scanned token)).foldl
      (Listener.filtered verbosity).hear opening
  { exitCode := 0
    stdout := tokenListing tokens
    stderr := events.toList.map .event }

/-- Parse a text and tell the verdict, and the program if it is asked for. -/
def runParse
    (verbosity : Verbosity)
    (opening : Array Event)
    (options : Options)
    (source : String) :
    Outcome :=
  let (report, events) :=
    parse (.filtered verbosity) opening source
  { exitCode := verdict report
    stdout := reportText options report
    stderr := events.toList.map .event }

/-- Run the mode that the options select on what reading the file gave. -/
def run
    (verbosity : Verbosity)
    (options : Options)
    (content : Except ReadError String) :
    Outcome :=
  let opening := openingEvents verbosity options
  match content with
  | .error error =>
      { exitCode := unusable
        stdout := ""
        stderr := opening.toList.map .event ++ [.unreadable error] }
  | .ok source =>
      match options.modes.mode with
      | .scan => runScan verbosity opening source
      | .parse => runParse verbosity opening options source
      | .dump => runParse verbosity opening options source

/-- What is told without looking at a file, unless it is a usage error. -/
def EarlyAnswer.outcome : EarlyAnswer → Except UsageError Outcome
  | .help => .ok ⟨0, helpText, []⟩
  | .version => .ok ⟨0, versionText, []⟩
  | .usage error => .error error

/-- Answer some arguments, given a way to read files. -/
def respond
    (verbosity : Verbosity)
    (read : String → Except ReadError String)
    (arguments : List String) :
    Except UsageError Outcome :=
  match Options.ofArguments arguments with
  | .error early => early.outcome
  | .ok options => .ok (run verbosity options (read options.file))

end Iloc.CommandLine
