import Iloc.Proofs.Parser.TokenLine

namespace Iloc

/-!
# What a parse makes known

The events of a parse are those of reading its lines, one after the other.  A
listener that only takes diagnostics hears the errors of the rejected lines,
and the log records tell which tokens have been read.

Every diagnostic follows at once on the record of the token in error.
-/

universe u

/-- The diagnostic that an event hands over. -/
def Event.diagnostic? : Event → Option Diagnostic
  | .log _ => none
  | .report diagnostic => some diagnostic

/-- A reporter hears the diagnostics and nothing else. -/
theorem Listener.foldl_ofReporter
    {σ : Type u}
    (report : σ → Diagnostic → σ)
    (events : List Event)
    (state : σ) :
    events.foldl (ofReporter report).hear state =
      (events.filterMap Event.diagnostic?).foldl report state := by
  induction events generalizing state with
  | nil =>
      rfl
  | cons event events inductionHypothesis =>
      cases event with
      | log record =>
          exact inductionHypothesis state
      | report diagnostic =>
          exact inductionHypothesis (report state diagnostic)

/-- The token that an event says has been read. -/
def Event.token? : Event → Option Token
  | .log (.scanned token) => some token
  | _ => none

theorem Token.silent_scanned
    (tokens : List Token) :
    ∀ event ∈ tokens.map Token.scanned, event.diagnostic? = none := by
  intro event member
  obtain ⟨token, -, rfl⟩ := List.mem_map.mp member
  rfl

theorem Token.silent_discarded
    (number : UInt32)
    (tokens : List Token) :
    ∀ event ∈ tokens.flatMap (Token.discarded number),
      event.diagnostic? = none := by
  intro event member
  obtain ⟨token, -, isEvent⟩ := List.mem_flatMap.mp member
  rw [Token.discarded] at isEvent
  split at isEvent
  · rw [List.mem_singleton.mp isEvent]
    rfl
  · rcases List.mem_pair.mp isEvent with rfl | rfl
    · rfl
    · rfl

/-- Reading tokens logs them. -/
theorem Token.filterMap_token?_scanned
    (tokens : List Token) :
    (tokens.map Token.scanned).filterMap Event.token? = tokens := by
  rw [List.filterMap_map]
  exact List.filterMap_some

/-- Discarding tokens logs them as well. -/
theorem Token.filterMap_token?_discarded
    (number : UInt32)
    (tokens : List Token) :
    (tokens.flatMap (Token.discarded number)).filterMap Event.token? =
      tokens := by
  induction tokens with
  | nil =>
      rfl
  | cons token rest inductionHypothesis =>
      rw [List.flatMap_cons, List.filterMap_append,
        inductionHypothesis, Token.discarded]
      split <;> rfl

namespace TokenLine

/-- The events of reading lines, the first of which has a given number. -/
def history : UInt32 → List TokenLine → List Event
  | _, [] => []
  | number, line :: lines =>
      line.events number ++ history (line.numberBehind number) lines

/-- Reading a line logs all of its tokens. -/
theorem filterMap_token?_events
    (line : TokenLine)
    (number : UInt32) :
    (line.events number).filterMap Event.token? = line.tokens := by
  cases judged : line.judge with
  | blank =>
      rw [events, judged]
      exact Token.filterMap_token?_scanned line.tokens
  | accepted instruction =>
      simp only [events, judged]
      rw [List.filterMap_append, Token.filterMap_token?_scanned]
      exact List.append_nil line.tokens
  | rejected error read unread =>
      obtain ⟨split, -⟩ := rejected_split judged
      simp only [events, judged]
      rw [List.filterMap_append, Token.filterMap_token?_scanned,
        List.filterMap_cons_none rfl, Token.filterMap_token?_discarded]
      exact split

theorem filterMap_token?_history
    (number : UInt32)
    (lines : List TokenLine) :
    (history number lines).filterMap Event.token? =
      lines.flatMap tokens := by
  induction lines generalizing number with
  | nil =>
      rfl
  | cons line lines inductionHypothesis =>
      rw [history, List.filterMap_append, inductionHypothesis,
        filterMap_token?_events, List.flatMap_cons]

/-- Reading a line hands over the error it is rejected for. -/
theorem filterMap_diagnostic?_events
    (line : TokenLine)
    (number : UInt32) :
    (line.events number).filterMap Event.diagnostic? =
      (line.error?.map fun error => ⟨number, error⟩).toList := by
  have scanned (tokens : List Token) :=
    List.filterMap_eq_nil_iff.mpr (Token.silent_scanned tokens)
  have discarded (tokens : List Token) :=
    List.filterMap_eq_nil_iff.mpr (Token.silent_discarded number tokens)
  rw [events, error?]
  cases line.judge with
  | blank =>
      exact scanned line.tokens
  | accepted instruction =>
      simp [scanned, Event.diagnostic?]
  | rejected error read unread =>
      simp [scanned, discarded, Event.diagnostic?]

end TokenLine

/--
Every diagnostic follows at once on the record of the token in error, and takes
its line from that token.
-/
inductive Attributed : List Event → Prop where
  | nil :
      Attributed []
  | log
      (record : LogRecord)
      {events : List Event}
      (tail : Attributed events) :
      Attributed (.log record :: events)
  | report
      {token : Token}
      {diagnostic : Diagnostic}
      {events : List Event}
      (isFound : token.kind = diagnostic.error.found)
      (sameLine : token.line = diagnostic.line)
      (tail : Attributed events) :
      Attributed (token.scanned :: .report diagnostic :: events)

namespace Attributed

variable {events later : List Event}

theorem append
    (first : Attributed events)
    (second : Attributed later) :
    Attributed (events ++ later) := by
  induction first with
  | nil =>
      exact second
  | log record tail inductionHypothesis =>
      exact .log record inductionHypothesis
  | report isFound sameLine tail inductionHypothesis =>
      exact .report isFound sameLine inductionHypothesis

theorem of_silent
    (silent : ∀ event ∈ events, event.diagnostic? = none) :
    Attributed events := by
  induction events with
  | nil =>
      exact .nil
  | cons event events inductionHypothesis =>
      obtain ⟨first, rest⟩ := List.forall_mem_cons.mp silent
      cases event with
      | log record =>
          exact .log record (inductionHypothesis rest)
      | report diagnostic =>
          cases first

/-- A diagnostic stands on the line of a token that has been read. -/
theorem exists_token
    (attributed : Attributed events)
    {diagnostic : Diagnostic}
    (reported : diagnostic ∈ events.filterMap Event.diagnostic?) :
    ∃ token ∈ events.filterMap Event.token?,
      token.line = diagnostic.line := by
  induction attributed with
  | nil =>
      cases reported
  | log record tail inductionHypothesis =>
      obtain ⟨token, wasRead, sameLine⟩ := inductionHypothesis reported
      refine ⟨token, ?_, sameLine⟩
      rw [List.filterMap_cons]
      split
      · exact wasRead
      · exact List.mem_cons_of_mem _ wasRead
  | @report token found events isFound sameLine tail
      inductionHypothesis =>
      rcases List.mem_cons.mp reported with rfl | inTail
      · exact ⟨token, List.mem_cons_self, sameLine⟩
      · obtain ⟨other, wasRead, otherLine⟩ := inductionHypothesis inTail
        exact ⟨other, List.mem_cons_of_mem _ wasRead, otherLine⟩

end Attributed

/-- What a line is rejected for is attributed to the number of its tokens. -/
theorem TokenLine.attributed_events
    {line : TokenLine}
    {number : UInt32}
    (numbers : ∀ token ∈ line.tokens, token.line = number) :
    Attributed (line.events number) := by
  cases judged : line.judge with
  | blank =>
      rw [events, judged]
      exact .of_silent (Token.silent_scanned line.tokens)
  | accepted instruction =>
      rw [events, judged]
      exact
        (Attributed.of_silent (Token.silent_scanned line.tokens)).append
          (.log _ .nil)
  | rejected error read unread =>
      obtain ⟨split, fitting, found, rfl, isFound⟩ :=
        rejected_split judged
      have sameLine : found.line = number := by
        apply numbers
        simp [← split]
      have unreadSilent :=
        Attributed.of_silent (Token.silent_discarded number unread)
      have fittingSilent :=
        Attributed.of_silent (Token.silent_scanned fitting)
      simp only [events, judged, List.map_append, List.map_cons,
        List.map_nil, List.append_assoc, List.cons_append,
        List.nil_append]
      exact
        fittingSilent.append (.report isFound.symm sameLine unreadSilent)

end Iloc
