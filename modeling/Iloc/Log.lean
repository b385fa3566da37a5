import Iloc.Instruction
import Iloc.Token

namespace Iloc

/-!
# Log records

Besides its results the front end keeps a log of what it does.  A record holds
what happened; its level, its component and its wording follow from that.  A
verbosity selects the records of at least a certain severity and affects
nothing else.
-/

/-- The severities of log records, the gravest first. -/
inductive Level where
  | error
  | warn
  | info
  | debug
  | trace
  deriving Repr, DecidableEq

namespace Level

/-- The position of a level among the severities, the gravest lowest. -/
def rank : Level → Nat
  | .error => 1
  | .warn => 2
  | .info => 3
  | .debug => 4
  | .trace => 5

/-- The name of a level in a log line. -/
def name : Level → String
  | .error => "ERROR"
  | .warn => "WARN"
  | .info => "INFO"
  | .debug => "DEBUG"
  | .trace => "TRACE"

end Level

/-- How much of the log is shown. -/
inductive Verbosity where
  /-- No record at all. -/
  | off
  /-- The records of one level and of all graver ones. -/
  | upTo (level : Level)
  deriving Repr, DecidableEq

namespace Verbosity

/-- Without a setting, warnings and errors are shown. -/
def standard : Verbosity :=
  .upTo .warn

/-- Whether a verbosity shows the records of a level. -/
def admits
    (verbosity : Verbosity)
    (level : Level) :
    Bool :=
  match verbosity with
  | .off => false
  | .upTo limit => level.rank ≤ limit.rank

/-- All verbosities, from the tersest on, each with the word that selects it. -/
def table : List (String × Verbosity) :=
  [ ("off", .off),
    ("error", .upTo .error),
    ("warn", .upTo .warn),
    ("info", .upTo .info),
    ("debug", .upTo .debug),
    ("trace", .upTo .trace) ]

/--
The verbosity that a setting selects.  Case does not matter.  A text that names
no verbosity shows nothing, for it may be meant for some other program.
-/
def ofSetting : Option String → Verbosity
  | none => standard
  | some setting => (table.lookup setting.toLower).getD .off

end Verbosity

/-- What the log can tell about. -/
inductive LogRecord where
  /-- The scanner read a token. -/
  | scanned (token : Token)
  /-- The parser accepted an instruction and now stands on a line. -/
  | committed (line : UInt32) (instruction : Instruction)
  /-- The parser discarded a token of a line it had rejected. -/
  | skipped (line : UInt32) (found : TokenKind)
  /-- The parser came to the end of the text. -/
  | finished (instructions rejectedLines : Nat)
  /-- The command line selects more than one mode. -/
  | conflictingModes
  deriving Repr, DecidableEq

namespace LogRecord

/-- The severity of a record. -/
def level : LogRecord → Level
  | .scanned _ => .trace
  | .committed _ _ => .debug
  | .skipped _ _ => .debug
  | .finished _ _ => .info
  | .conflictingModes => .warn

/-- The part of the program that a record comes from. -/
def component : LogRecord → String
  | .scanned _ => "ilocfe::lex"
  | .committed _ _ => "ilocfe::parse"
  | .skipped _ _ => "ilocfe::parse"
  | .finished _ _ => "ilocfe::parse"
  | .conflictingModes => "ilocfe::cli"

/-- The wording of a record. -/
def message : LogRecord → String
  | .scanned token =>
      s!"line {token.line}: {token.kind.text}"
  | .committed line instruction =>
      s!"line {line}: {instruction.text}"
  | .skipped line found =>
      s!"line {line}: skipping {found.text}"
  | .finished instructions rejectedLines =>
      s!"parsed {instructions} instructions, {rejectedLines} lines rejected"
  | .conflictingModes =>
      "Please use only one command argument at a time"

/-- A record as one log line. -/
def text (record : LogRecord) : String :=
  s!"{record.level.name} {record.component}: {record.message}"

end LogRecord

end Iloc
