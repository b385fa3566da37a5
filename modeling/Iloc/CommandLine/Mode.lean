import Iloc.Log

namespace Iloc.CommandLine

/-!
# Modes

Three flags select what the program does with a source file.  They are meant to
be used one at a time.  If more than one is given the most thorough mode wins,
and the log says that the choice was not clear.
-/

/-- What the program does with a source file. -/
inductive Mode where
  /-- List the tokens. -/
  | scan
  /-- Parse, and tell whether every line is accepted. -/
  | parse
  /-- Parse, and show the program if every line is accepted. -/
  | dump
  deriving Repr, DecidableEq

/-- Which of the mode flags are given. -/
structure ModeFlags where
  scan : Bool
  parse : Bool
  dump : Bool
  deriving Repr, DecidableEq

namespace ModeFlags

/-- The mode that the flags select.  Without any of them it is parsing. -/
def mode (flags : ModeFlags) : Mode :=
  if flags.dump then
    .dump
  else if flags.parse then
    .parse
  else if flags.scan then
    .scan
  else
    .parse

/-- The number of mode flags given. -/
def count (flags : ModeFlags) : Nat :=
  [flags.scan, flags.parse, flags.dump].count true

/-- What the choice of a mode leaves in the log. -/
def records (flags : ModeFlags) : List LogRecord :=
  if flags.count > 1 then
    [.conflictingModes]
  else
    []

end ModeFlags

namespace Mode

/--
The name of a mode.  A run never writes it; it is the answer for those who ask
which mode some flags select.
-/
def name : Mode → String
  | .scan => "scan"
  | .parse => "parse"
  | .dump => "dump"

end Mode

end Iloc.CommandLine
