import Iloc.Parser.Run

namespace Iloc

/-!
# Validation

Validation parses a text for its program and its diagnostics together.  Other
callers bring a reporter of their own, which may be shared by several parses,
or ask for the complete transcript of a parse.
-/

universe u

/-- The program of the accepted lines and one diagnostic per rejected line. -/
structure Validation where
  program : Program
  diagnostics : Array Diagnostic
  deriving Repr, DecidableEq

namespace Validation

/-- Whether the whole text was accepted. -/
def isSuccess (validation : Validation) : Bool :=
  validation.diagnostics.isEmpty

end Validation

/-- Validate a text. -/
def validate (source : String) : Validation :=
  let (report, diagnostics) := parse .collector #[] source
  ⟨report.program, diagnostics⟩

/-- Parse a text and hand its diagnostics to a reporter, one by one. -/
def validateWith
    {σ : Type u}
    (report : σ → Diagnostic → σ)
    (state : σ)
    (source : String) :
    Report × σ :=
  parse (.ofReporter report) state source

/-- Parse a text and keep every event. -/
def transcribe (source : String) : Report × Array Event :=
  parse .transcript #[] source

/--
Parse several texts, each anew, into one collection of diagnostics.  There is
one entry per text: its report, and everything collected up to its end.
-/
def session
    (collected : Array Diagnostic) :
    List String → List (Report × Array Diagnostic)
  | [] => []
  | source :: sources =>
      let entry := validateWith Array.push collected source
      entry :: session entry.2 sources

end Iloc
