import Iloc.Diagnostic
import Iloc.Log

namespace Iloc

/-!
# Events and listeners

A parse makes itself known through events: records for the log and diagnostics
for whoever asked for the parse.  A listener takes them one at a time, in the
order in which they occur, and turns each into a change of its own state.
Nothing flows back, so what a listener does cannot influence the parse.
-/

universe u

/-- Something that happens during a parse. -/
inductive Event where
  | log (record : LogRecord)
  | report (diagnostic : Diagnostic)
  deriving Repr, DecidableEq

namespace Event

/-- An event as one line of text. -/
def text : Event → String
  | .log record => record.text
  | .report diagnostic => s!"REPORT {diagnostic.text}"

end Event

/-- The effect that events have on a state of any kind. -/
structure Listener (σ : Type u) where
  /-- The state after an event has been heard. -/
  hear : σ → Event → σ

namespace Listener

/-- Hear diagnostics only. -/
def ofReporter
    {σ : Type u}
    (report : σ → Diagnostic → σ) :
    Listener σ where
  hear state
    | .log _ => state
    | .report diagnostic => report state diagnostic

/-- Collect the diagnostics, in order. -/
def collector : Listener (Array Diagnostic) :=
  ofReporter Array.push

/-- Collect all events, in order. -/
def transcript : Listener (Array Event) where
  hear := Array.push

/-- Collect the diagnostics and such log records as a verbosity shows. -/
def filtered (verbosity : Verbosity) : Listener (Array Event) where
  hear events
    | .log record =>
        if verbosity.admits record.level then
          events.push (.log record)
        else
          events
    | .report diagnostic =>
        events.push (.report diagnostic)

end Listener

end Iloc
