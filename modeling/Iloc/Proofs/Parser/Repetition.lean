import Iloc.Proofs.Parser.LineByLine
import Mathlib.Data.List.Destutter

namespace Iloc

/-!
# Line numbers that come again

A line number has 32 bits, so the numbers of a very long text come again.  An
error is held back if the error found before it is on a line of the same number.
So from errors that follow each other with one line number only the first is
reported.

Here a parse is followed without a bound on the number of lines.  It differs
from the sum of the judgements on the lines in nothing else, and with fewer than
2 ^ 32 line feeds in the text it does not differ at all.
-/

universe u

namespace Diagnostic

/--
What is reported of the diagnostics found, where the one found before them, if
any, is for the line `last`.
-/
def withoutRepeats : Option UInt32 → List Diagnostic → List Diagnostic
  | _, [] => []
  | last, diagnostic :: rest =>
      (if last = some diagnostic.line then [] else [diagnostic]) ++
        withoutRepeats (some diagnostic.line) rest

/-- A diagnostic that has been reported holds the following ones back. -/
theorem cons_withoutRepeats
    (diagnostic : Diagnostic)
    (rest : List Diagnostic) :
    diagnostic :: withoutRepeats (some diagnostic.line) rest =
      rest.destutter' (·.line ≠ ·.line) diagnostic := by
  induction rest generalizing diagnostic with
  | nil =>
      rfl
  | cons next rest inductionHypothesis =>
      by_cases repeated : diagnostic.line = next.line
      · rw [List.destutter'_cons_neg _ (not_not.mpr repeated),
          ← inductionHypothesis, withoutRepeats, if_pos (by rw [repeated]),
          repeated]
        rfl
      · have fresh : ¬ some diagnostic.line = some next.line :=
          fun same => repeated (Option.some.inj same)
        rw [List.destutter'_cons_pos _ repeated, ← inductionHypothesis,
          withoutRepeats, if_neg fresh]
        rfl

/-- Where nothing has been found before, the first of each run is reported. -/
theorem withoutRepeats_none
    (diagnostics : List Diagnostic) :
    withoutRepeats none diagnostics =
      diagnostics.destutter (·.line ≠ ·.line) := by
  cases diagnostics with
  | nil =>
      rfl
  | cons diagnostic rest =>
      rw [List.destutter_cons', ← cons_withoutRepeats, withoutRepeats,
        if_neg (by simp)]
      rfl

end Diagnostic

namespace Parser

variable {σ : Type u}

/-- The state of a parser that has read some lines, one after the other. -/
def readLines
    (listener : Listener σ)
    (lines : List TokenLine)
    (parser : Parser σ) :
    Parser σ :=
  lines.foldl (fun parser line => parser.readLine listener line) parser

section readLines

variable (listener : Listener σ)

@[simp]
theorem readLines_nil
    (parser : Parser σ) :
    parser.readLines listener [] = parser := rfl

@[simp]
theorem readLines_cons
    (line : TokenLine)
    (lines : List TokenLine)
    (parser : Parser σ) :
    parser.readLines listener (line :: lines) =
      (parser.readLine listener line).readLines listener lines := rfl

/-- Whatever is held back, no instruction is. -/
theorem program_readLines
    (lines : List TokenLine)
    (parser : Parser σ) :
    (parser.readLines listener lines).program.toList =
      parser.program.toList ++
        lines.filterMap TokenLine.instruction? := by
  induction lines generalizing parser with
  | nil =>
      simp
  | cons line lines inductionHypothesis =>
      cases added : line.instruction? <;>
        simp [inductionHypothesis, readLine, takeLine, added]

end readLines

/-- A turn reads the line ahead, whatever has been reported before. -/
theorem step_of_readsLine
    {parser : Parser σ}
    {line : TokenLine}
    (reads : parser.scanner.ReadsLine line)
    (settled : parser.pendingResync = false)
    (listener : Listener σ) :
    parser.step listener =
      if line.IsEnd then
        .done (parser.readLine listener line)
      else
        .again (parser.readLine listener line) :=
  step_eq_readLine listener parser reads.ahead settled

/-- A parse reads the lines of its turns, whatever has been reported before. -/
theorem run_eq_readLines
    {parser : Parser σ}
    {lines : List TokenLine}
    (turns : parser.scanner.Turns lines)
    (settled : parser.pendingResync = false)
    (listener : Listener σ) :
    parser.run listener = parser.readLines listener lines := by
  generalize start : parser.scanner = scanner at turns
  induction turns generalizing parser with
  | @last scanner line reads isEnd =>
      subst start
      have turn := step_of_readsLine reads settled listener
      rw [if_pos isEnd] at turn
      exact run_of_done turn
  | @turn scanner line lines reads goesOn later inductionHypothesis =>
      subst start
      have turn := step_of_readsLine reads settled listener
      rw [if_neg goesOn] at turn
      rw [run_of_again turn]
      exact inductionHypothesis rfl rfl

end Parser

/-- What is told while a line is read is told once. -/
theorem TokenLine.filterMap_diagnostic?_eventsTelling
    (line : TokenLine)
    (number : UInt32)
    {told : List Diagnostic}
    (faulty : line.error? = none → told = []) :
    (line.eventsTelling number told).filterMap Event.diagnostic? =
      told := by
  have scanned (tokens : List Token) :=
    List.filterMap_eq_nil_iff.mpr (Token.silent_scanned tokens)
  have discarded (tokens : List Token) :=
    List.filterMap_eq_nil_iff.mpr (Token.silent_discarded number tokens)
  have reported :
      (told.map Event.report).filterMap Event.diagnostic? = told := by
    rw [List.filterMap_map]
    exact List.filterMap_some
  cases judged : line.judge with
  | rejected error read unread =>
      simp [eventsTelling, judged, scanned, discarded, reported]
  | _ =>
      have faultless : line.error? = none := by
        rw [error?, judged]
      have silent := line.filterMap_diagnostic?_events number
      rw [faultless] at silent
      rw [faulty faultless, eventsTelling, judged]
      exact silent

namespace Parser

variable {σ : Type u}

theorem tells_eq_withoutRepeats
    (error? : Option StatementError)
    (parser : Parser σ) :
    parser.tells error? =
      Diagnostic.withoutRepeats parser.lastReported
        (error?.map fun error => ⟨parser.line, error⟩).toList := by
  cases error? with
  | none =>
      rw [tells]
      split <;> rfl
  | some error =>
      rw [tells, Option.map_some, Option.toList_some,
        Diagnostic.withoutRepeats, Diagnostic.withoutRepeats,
        List.append_nil]

/-- A reporter is told the errors of the lines, but no line number twice. -/
theorem sink_readLines
    (report : σ → Diagnostic → σ)
    (lines : List TokenLine)
    (parser : Parser σ) :
    (parser.readLines (.ofReporter report) lines).sink =
      (Diagnostic.withoutRepeats parser.lastReported
        ((TokenLine.history parser.line lines).filterMap
          Event.diagnostic?)).foldl report parser.sink := by
  induction lines generalizing parser with
  | nil =>
      rfl
  | cons line lines inductionHypothesis =>
      have told :
          (parser.readLine (.ofReporter report) line).sink =
            (parser.tells line.error?).foldl report parser.sink := by
        have heard :
            (parser.readLine (.ofReporter report) line).sink =
              (line.eventsTelling parser.line
                (parser.tells line.error?)).foldl
                  (Listener.ofReporter report).hear parser.sink := rfl
        rw [heard, Listener.foldl_ofReporter,
          line.filterMap_diagnostic?_eventsTelling]
        intro faultless
        rw [faultless, tells_eq_withoutRepeats]
        rfl
      have behind :
          (parser.readLine (.ofReporter report) line).line =
            line.numberBehind parser.line := rfl
      have lastReported :
          (parser.readLine (.ofReporter report) line).lastReported =
            if line.error?.isSome then
              some parser.line
            else
              parser.lastReported := rfl
      rw [readLines_cons, inductionHypothesis, told, behind, lastReported,
        ← List.foldl_append, TokenLine.history, List.filterMap_append,
        line.filterMap_diagnostic?_events, tells_eq_withoutRepeats]
      cases line.error? with
      | none =>
          rfl
      | some error =>
          simp [Diagnostic.withoutRepeats]

end Parser

/--
Validation returns what the lines of a text come to.  Of errors found one after
the other on lines of one number it keeps the first.
-/
theorem validate_eq_destutter
    (source : String) :
    let lines := TokenLine.cut (scan source)
    validate source =
      ⟨TokenLine.program lines,
        ((TokenLine.diagnosticsFrom 1 lines).destutter
          (·.line ≠ ·.line)).toArray⟩ := by
  intro lines
  obtain ⟨turnLines, turns⟩ := (Scanner.ofSource source).exists_turns
  have run :
      (Parser.ofSource source #[]).run .collector =
        (Parser.ofSource source #[]).readLines .collector turnLines :=
    Parser.run_eq_readLines turns rfl .collector
  have program :
      (validate source).program = TokenLine.program lines := by
    apply Array.toList_inj.mp
    have returned :
        (validate source).program =
          ((Parser.ofSource source #[]).run .collector).program := rfl
    rw [returned, run, Parser.program_readLines, turns.program_eq]
    rfl
  have diagnostics :
      (validate source).diagnostics =
        ((TokenLine.diagnosticsFrom 1 lines).destutter
          (·.line ≠ ·.line)).toArray := by
    have collected :
        (validate source).diagnostics =
          ((Parser.ofSource source #[]).run .collector).sink := rfl
    have found :
        (TokenLine.history 1 turnLines).filterMap Event.diagnostic? =
          TokenLine.diagnosticsFrom 1 lines :=
      turns.diagnostics_eq 1
    rw [collected, run, Listener.collector, Parser.sink_readLines,
      List.foldl_push_eq_append', ← Diagnostic.withoutRepeats_none,
      ← found]
    exact Array.empty_append
  rw [← program, ← diagnostics]

namespace TokenLine

end TokenLine

namespace Scanner

end Scanner

end Iloc
