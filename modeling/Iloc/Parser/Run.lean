import Iloc.Parser.Progress

namespace Iloc

/-!
# Whole parses

A parse takes turns until the end of the text has been read.  Its report holds
the program and the number of rejected lines; the text is accepted when no line
was rejected.
-/

universe u

/-- The result of a parse. -/
structure Report where
  program : Program
  errorCount : Nat
  deriving Repr, DecidableEq

namespace Report

/-- Whether the whole text was accepted. -/
def isSuccess (report : Report) : Bool :=
  report.errorCount == 0

/-- The number of instructions accepted. -/
def instructionCount (report : Report) : Nat :=
  report.program.size

/-- The verdict on a text in one line. -/
def summary (report : Report) : String :=
  if report.isSuccess then
    s!"Parse succeeded: {report.instructionCount} " ++
      "operations parsed successfully"
  else
    s!"Parse found errors on {report.errorCount} lines"

end Report

namespace Parser

variable {σ : Type u}

/-- Take turns until the end of the text has been read. -/
def run
    (listener : Listener σ)
    (parser : Parser σ) :
    Parser σ :=
  match _ : parser.step listener with
  | .again later => later.run listener
  | .done later => later
termination_by parser.remaining
decreasing_by
  exact remaining_step_lt ‹_›

/-- What a parser has found so far. -/
def toReport (parser : Parser σ) : Report where
  program := parser.program
  errorCount := parser.errorCount

/-- Log the totals of a parse that has come to its end. -/
def finish
    (listener : Listener σ)
    (parser : Parser σ) :
    Parser σ :=
  parser.emit listener
    (.log (.finished parser.program.size parser.errorCount))

end Parser

/--
Parse a text.  Every line is examined, whatever is wrong with the lines before
it.  The result is the report and what the listener made of the events.
-/
def parse
    {σ : Type u}
    (listener : Listener σ)
    (sink : σ)
    (source : String) :
    Report × σ :=
  let parser :=
    ((Parser.ofSource source sink).run listener).finish listener
  (parser.toReport, parser.sink)

end Iloc
