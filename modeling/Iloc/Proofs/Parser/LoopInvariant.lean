import Iloc.Proofs.Parser.Atomicity
import Iloc.Proofs.Parser.LineByLine
import Iloc.Proofs.Scanner.LineCount

namespace Iloc

/-!
# The invariant of the statement loop

Before every turn of a parse the parser knows its line exactly.  It is one more
than the number of tokens read that begin a line, and it is the line of the
scanner, unless the last of these tokens was a comment that the end of the text
ended.  No error has been reported for a line that is still to come.

Hence every error that the parser comes upon is reported, for the line that the
token in error stands on, and the numbers of the reported lines ascend.
-/

universe u v

namespace Parser

variable {σ : Type u} {τ : Type v}

/-- The same parser with a listener in another state. -/
def withSink
    (sink : τ)
    (parser : Parser σ) :
    Parser τ where
  scanner := parser.scanner
  line := parser.line
  pendingResync := parser.pendingResync
  program := parser.program
  errorCount := parser.errorCount
  lastReported := parser.lastReported
  sink := sink

/-- What a listener is or has heard has no influence on the lines taken. -/
theorem takeLines_withSink
    (listener : Listener σ)
    (other : Listener τ)
    (lines : List TokenLine)
    (parser : Parser σ)
    (sink : τ) :
    (parser.withSink sink).takeLines other lines =
      (parser.takeLines listener lines).withSink
        ((TokenLine.history parser.line lines).foldl other.hear sink) := by
  induction lines generalizing parser sink with
  | nil =>
      rfl
  | cons line lines inductionHypothesis =>
      rw [takeLines_cons, takeLines_cons, TokenLine.history,
        List.foldl_append]
      exact
        inductionHypothesis (parser.takeLine listener line)
          ((line.events parser.line).foldl other.hear sink)

/--
The error that the next turn comes upon, and the parser as it is when it has
come upon the error.
-/
def errorAhead?
    (listener : Listener σ)
    (parser : Parser σ) :
    Option (StatementError × Parser σ) :=
  match parser.pull listener with
  | (.opcode opcode, parser) =>
      match parser.check listener opcode.opClass opcode.form with
      | (.ok _, _) => none
      | (.error error, parser) => some (error, parser)
  | (.eof, _) => none
  | (.newLine, _) => none
  | (.comment, _) => none
  | (found, parser) => some (.notAnOpcode found, parser)

/-- A turn that comes upon an error rejects the statement. -/
theorem step_of_errorAhead?
    {listener : Listener σ}
    {parser later : Parser σ}
    {error : StatementError}
    (found : parser.errorAhead? listener = some (error, later)) :
    parser.step listener = .again (later.reject listener error) := by
  rw [step]
  rw [errorAhead?] at found
  cases pulled : parser.pull listener with
  | mk kind behind =>
      rw [pulled] at found
      cases kind with
      | opcode opcode =>
          dsimp only at found ⊢
          split at found
          · cases found
          · rename_i checked
            cases found
            rw [checked]
            rfl
      | eof =>
          cases found
      | newLine =>
          cases found
      | comment =>
          cases found
      | _ =>
          cases found
          rfl

/-- Until an error is found a statement only reads on. -/
theorem check_error_of_follows
    {listener : Listener σ}
    {opClass : OpClass}
    {form : Form}
    {pattern : List Terminal}
    {build : List UInt32 → Option Instruction}
    (follows : form.Follows pattern build)
    {parser later : Parser σ}
    {error : StatementError}
    (checked :
      parser.check listener opClass form = (.error error, later)) :
    ∃ events,
      (∀ event ∈ events, event.diagnostic? = none) ∧
        later = parser.advance listener events later.scanner := by
  induction follows generalizing parser with
  | place form inside behind inductionHypothesis =>
      rw [check_of_place listener opClass inside, pull_eq] at checked
      dsimp only at checked
      split at checked
      · rename_i next goesOn
        obtain ⟨events, silent, shape⟩ :=
          inductionHypothesis _ next goesOn checked
        refine ⟨parser.scanner.next.1.scanned :: events,
          List.forall_mem_cons.mpr ⟨rfl, silent⟩, ?_⟩
        rw [advance_advance] at shape
        exact shape
      · cases checked
        exact
          ⟨[parser.scanner.next.1.scanned],
            List.forall_mem_singleton.mpr rfl, rfl⟩
  | endOfLine built =>
      rw [check, pull_eq] at checked
      dsimp only at checked
      split at checked
      · cases checked
      · cases checked
        exact
          ⟨[parser.scanner.next.1.scanned],
            List.forall_mem_singleton.mpr rfl, rfl⟩

/-- Coming upon an error changes nothing but what has been read. -/
theorem errorAhead?_eq_some
    {listener : Listener σ}
    {parser later : Parser σ}
    {error : StatementError}
    (found : parser.errorAhead? listener = some (error, later)) :
    ¬ parser.scanner.AtEnd ∧
      ∃ events,
        (∀ event ∈ events, event.diagnostic? = none) ∧
          later = parser.advance listener events later.scanner := by
  rw [errorAhead?, pull_eq] at found
  rw [Scanner.AtEnd]
  cases kind : parser.scanner.next.1.kind with
  | opcode opcode =>
      rw [kind] at found
      dsimp only at found
      split at found
      · cases found
      · rename_i checked
        cases found
        obtain ⟨events, silent, shape⟩ :=
          check_error_of_follows opcode.form_follows checked
        rw [advance_advance] at shape
        exact
          ⟨by simp, _, List.forall_mem_cons.mpr ⟨rfl, silent⟩, shape⟩
  | eof =>
      rw [kind] at found
      cases found
  | newLine =>
      rw [kind] at found
      cases found
  | comment =>
      rw [kind] at found
      cases found
  | _ =>
      rw [kind] at found
      cases found
      exact ⟨by simp, _, List.forall_mem_singleton.mpr rfl, rfl⟩

/--
An error on a line that nothing has been reported for is handed over when the
line is rejected, and nothing else is.
-/
theorem sink_reject_of_fresh
    (listener : Listener σ)
    (error : StatementError)
    {parser : Parser σ}
    (fresh : parser.lastReported ≠ some parser.line) :
    ∃ discarded : List Event,
      (∀ event ∈ discarded, event.diagnostic? = none) ∧
        (parser.reject listener error).sink =
          (.report ⟨parser.line, error⟩ :: discarded).foldl
            listener.hear parser.sink := by
  have reported :
      (parser.report listener error).sink =
        listener.hear parser.sink (.report ⟨parser.line, error⟩) := by
    rw [report, if_neg fresh]
    rfl
  rw [reject]
  split
  · rename_i ended
    refine ⟨[], List.forall_mem_nil _, ?_⟩
    rw [endLine_of_ended ended]
    exact reported
  · obtain ⟨line, reads⟩ :=
      (parser.report listener error).scanner.exists_readsLine
    have discards :
        DiscardsLine listener line
          { parser.report listener error with pendingResync := true } _ :=
      discardsLine_sync listener rfl reads.ahead
    obtain ⟨events, -, silent, heard⟩ := discards.reads.heard
    refine ⟨events, List.filterMap_eq_nil_iff.mp silent, ?_⟩
    rw [heard, reported]
    rfl

/--
The listener hears of an error that a turn comes upon, if nothing has been
reported for its line: it hears what is read, the error, and what is discarded.
-/
theorem sink_of_errorAhead?
    {listener : Listener σ}
    {parser later : Parser σ}
    {error : StatementError}
    (found : parser.errorAhead? listener = some (error, later))
    (fresh : later.lastReported ≠ some later.line) :
    ∃ read discarded : List Event,
      (read ++ discarded).filterMap Event.diagnostic? = [] ∧
        (later.reject listener error).sink =
          (read ++ .report ⟨later.line, error⟩ :: discarded).foldl
            listener.hear parser.sink := by
  obtain ⟨-, read, silentRead, shape⟩ := errorAhead?_eq_some found
  obtain ⟨discarded, silentDiscarded, heard⟩ :=
    sink_reject_of_fresh listener error fresh
  have sink : later.sink = read.foldl listener.hear parser.sink :=
    congrArg Parser.sink shape
  refine ⟨read, discarded, ?_, ?_⟩
  · rw [List.filterMap_eq_nil_iff]
    intro event member
    exact (List.mem_append.mp member).elim
      (silentRead event) (silentDiscarded event)
  · rw [heard, sink, List.foldl_append]

namespace InStep

variable {feeds : Nat} {pulled : List Token} {parser : Parser σ}

/-- No error is held back because one was reported for its line before. -/
theorem fresh_of_errorAhead?
    (inStep : parser.InStep feeds pulled)
    {listener : Listener σ}
    {later : Parser σ}
    {error : StatementError}
    (found : parser.errorAhead? listener = some (error, later)) :
    later.lastReported ≠ some later.line := by
  obtain ⟨goesOn, events, -, shape⟩ := errorAhead?_eq_some found
  rw [shape]
  intro isCurrent
  rcases inStep.reported _ isCurrent with earlier | ⟨-, atEnd, -⟩
  · exact Nat.lt_irrefl _ (UInt32.lt_iff_toNat_lt.mp earlier)
  · exact goesOn atEnd

/-- A turn reports its error for the line that the token in error stands on. -/
theorem attributed_events
    {line : TokenLine}
    (inStep : parser.InStep feeds pulled)
    (reads : parser.scanner.ReadsLine line) :
    Attributed (line.events parser.line) := by
  rcases inStep.agrees with atEnd | ⟨sameLine, -⟩
  · have blank := line.judge_of_isEnd (reads.isEnd_of_atEnd atEnd)
    rw [TokenLine.events, blank]
    exact .of_silent (Token.silent_scanned line.tokens)
  · apply TokenLine.attributed_events
    rw [sameLine]
    exact reads.numbers

/-- All turns report their errors for the lines of the tokens in error. -/
theorem attributed_history
    {lines : List TokenLine}
    (inStep : parser.InStep feeds pulled)
    (turns : parser.scanner.Turns lines)
    (small : feeds + 3 ≤ UInt32.size) :
    Attributed (TokenLine.history parser.line lines) := by
  generalize start : parser.scanner = scanner at turns
  induction turns generalizing parser pulled with
  | last reads isEnd =>
      subst start
      exact (inStep.attributed_events reads).append .nil
  | @turn scanner line lines reads goesOn later inductionHypothesis =>
      subst start
      -- Which listener takes the line makes no difference to its number.
      let listener : Listener σ := ⟨fun state _ => state⟩
      have behind :=
        inductionHypothesis (inStep.takeLine reads small listener) rfl
      exact (inStep.attributed_events reads).append behind

end InStep

/--
What holds of a parser before every turn on a text, if its listener has heard
some events.
-/
structure HeadInvariant
    (source : String)
    (events : List Event)
    (parser : Parser σ) :
    Prop where
  settled : parser.pendingResync = false
  /-- Tokens of the text have been read in order, and none of them twice. -/
  pulled :
    events.filterMap Event.token? <+: scan source ∧
      parser.scanner =
        (Scanner.ofSource source).skip (events.filterMap Event.token?)
  /-- The line counts the tokens read that begin a line, without a wrap. -/
  counted :
    parser.line.toNat =
      1 + (events.filterMap Event.token?).countP Token.beginsLine
  /-- Unless the last token is an open comment the scanner counts the same. -/
  agrees :
    ¬ EndsOpen
        ((Scanner.ofSource source).pieces.take
          (events.filterMap Event.token?).length) →
      parser.line = parser.scanner.line
  /-- Behind an open comment only the end of the text is left. -/
  aheadOf :
    EndsOpen
        ((Scanner.ofSource source).pieces.take
          (events.filterMap Event.token?).length) →
      parser.line.toNat = parser.scanner.line.toNat + 1 ∧
        parser.scanner.AtEnd
  /--
  The last line reported lies behind, unless the end of the text has been read
  and is all that is left.
  -/
  reported :
    ∀ last ∈ parser.lastReported,
      last < parser.line ∨
        last = parser.line ∧ parser.scanner.AtEnd ∧
          ∃ token ∈ events.filterMap Event.token?, token.kind = .eof

/-- The lines that parser and scanner have counted, compared by their tokens. -/
theorem InStep.headInvariant
    {source : String}
    {events : List Event}
    {parser : Parser σ}
    (inStep :
      parser.InStep (source.toList.count '\n')
        (events.filterMap Event.token?))
    (small : source.toList.count '\n' + 3 ≤ UInt32.size)
    (isPrefix : events.filterMap Event.token? <+: scan source)
    (scannerShape :
      parser.scanner =
        (Scanner.ofSource source).skip
          (events.filterMap Event.token?)) :
    HeadInvariant source events parser := by
  have counted := inStep.counted
  have reported := inStep.reported
  have startLine : (Scanner.ofSource source).line.toNat = 1 := rfl
  have startFeeds :
      (Scanner.ofSource source).lineFeeds = source.toList.count '\n' :=
    rfl
  have sum :=
    (Scanner.ofSource source).toNat_line_skip
      (events.filterMap Event.token?)
  have difference :=
    (Scanner.ofSource source).countP_beginsLine_take
      (Scanner.Aligned.ofSource source)
      (events.filterMap Event.token?).length
  dsimp only at difference
  rw [← scan, ← List.prefix_iff_eq_take.mp isPrefix, ← scannerShape,
    startFeeds] at difference
  rw [← scannerShape, startLine, startFeeds] at sum
  have total := sum (by omega)
  refine ⟨inStep.settled, ⟨isPrefix, scannerShape⟩, counted, ?_, ?_,
    reported⟩
  · intro closed
    rcases difference with ⟨endsOpen, -, -⟩ | ⟨-, begun⟩
    · exact absurd endsOpen closed
    · rw [← UInt32.toNat_inj]
      omega
  · intro endsOpen
    rcases difference with ⟨-, atEnd, begun⟩ | ⟨closed, -⟩
    · exact ⟨by omega, atEnd⟩
    · exact absurd endsOpen closed

section run

variable {source : String} {lines : List TokenLine}

/-- The tokens of any number of turns but the last are a prefix of the text. -/
theorem prefix_of_turns
    (turns : (Scanner.ofSource source).Turns lines)
    {number : Nat}
    (notLast : number < lines.length) :
    (lines.take number).flatMap TokenLine.tokens <+: scan source := by
  obtain ⟨extra, shape, atMostOne, -⟩ := turns.cut_eq
  have within :
      number ≤
        (TokenLine.cut (Scanner.ofSource source).tokens).length := by
    rw [shape, List.length_append] at notLast
    omega
  rw [scan, ← TokenLine.flatMap_tokens_cut (Scanner.ofSource source),
    shape, List.take_append_of_le_length within]
  refine ⟨
    ((TokenLine.cut (Scanner.ofSource source).tokens).drop
      number).flatMap TokenLine.tokens, ?_⟩
  rw [← List.flatMap_append, List.take_append_drop]

/-- Before every turn the invariant holds of what the listener has heard. -/
theorem headInvariant_takeLines
    (turns : (Scanner.ofSource source).Turns lines)
    (small : source.toList.count '\n' + 3 ≤ UInt32.size)
    (listener : Listener σ)
    (sink : σ)
    {number : Nat}
    (notLast : number < lines.length) :
    HeadInvariant source (TokenLine.history 1 (lines.take number))
      ((ofSource source sink).takeLines listener
        (lines.take number)) := by
  have inStep :=
    (InStep.ofSource source sink).takeLines turns small listener number
  have isPrefix := prefix_of_turns turns notLast
  have scannerShape :=
    scanner_takeLines listener (lines.take number) (ofSource source sink)
  rw [List.nil_append, ← TokenLine.filterMap_token?_history 1] at inStep
  rw [← TokenLine.filterMap_token?_history 1] at isPrefix scannerShape
  exact inStep.headInvariant small isPrefix scannerShape

/-- The parser before a turn, and what listeners have heard until then. -/
theorem eq_takeLines_of_afterTurns
    (turns : (Scanner.ofSource source).Turns lines)
    (small : source.toList.count '\n' + 3 ≤ UInt32.size)
    (listener : Listener σ)
    (sink : σ)
    {number : Nat}
    {head : Parser σ}
    (isHead :
      (ofSource source sink).afterTurns listener number = some head) :
    number < lines.length ∧
      head =
        (ofSource source sink).takeLines listener (lines.take number) := by
  rw [(InStep.ofSource source sink).afterTurns_eq turns small] at isHead
  by_cases notLast : number < lines.length
  · rw [if_pos notLast] at isHead
    exact ⟨notLast, (Option.some.inj isHead).symm⟩
  · rw [if_neg notLast] at isHead
    cases isHead

/-- The events of a parse are those of its lines and the totals. -/
def eventsOf
    (source : String)
    (lines : List TokenLine) :
    List Event :=
  TokenLine.history 1 lines ++
    [.log (.finished
      (TokenLine.program (TokenLine.cut (scan source))).size
      (TokenLine.diagnostics (TokenLine.cut (scan source))).size)]

/-- Every listener hears the events of the lines of a text. -/
theorem sink_parse
    (turns : (Scanner.ofSource source).Turns lines)
    (small : source.toList.count '\n' + 3 ≤ UInt32.size)
    (listener : Listener σ)
    (sink : σ) :
    (parse listener sink source).2 =
      (eventsOf source lines).foldl listener.hear sink := by
  have report := report_parse small listener sink
  have size := congrArg (·.program.size) report
  have errorCount := congrArg (·.errorCount) report
  have run :=
    (InStep.ofSource source sink).run_eq turns small listener
  have heard := sink_takeLines listener lines (ofSource source sink)
  rw [← run] at heard
  have finished :
      (parse listener sink source).2 =
        listener.hear ((ofSource source sink).run listener).sink
          (.log (.finished (parse listener sink source).1.program.size
            (parse listener sink source).1.errorCount)) := rfl
  dsimp only at size errorCount
  rw [finished, size, errorCount, heard, eventsOf, List.foldl_append]
  rfl

/-- A transcript holds what it has heard. -/
theorem foldl_transcript
    (events : List Event) :
    events.foldl Listener.transcript.hear #[] = events.toArray :=
  List.foldl_push_eq_append'.trans (by simp)

/-- The transcript of a parse holds its events in order. -/
theorem toList_transcribe
    (turns : (Scanner.ofSource source).Turns lines)
    (small : source.toList.count '\n' + 3 ≤ UInt32.size) :
    (transcribe source).2.toList = eventsOf source lines := by
  have heard := sink_parse turns small Listener.transcript #[]
  rw [transcribe, heard, foldl_transcript]

/-- Before every turn the invariant holds, and the transcript shows it. -/
theorem exists_headInvariant
    (small : source.toList.count '\n' + 3 ≤ UInt32.size)
    (listener : Listener σ)
    (sink : σ)
    {number : Nat}
    {head : Parser σ}
    (isHead :
      (ofSource source sink).afterTurns listener number = some head) :
    ∃ events : Array Event,
      (ofSource source #[]).afterTurns .transcript number =
          some (head.withSink events) ∧
        head.sink = events.toList.foldl listener.hear sink ∧
        HeadInvariant source events.toList head ∧
        ∀ error later,
          head.errorAhead? listener = some (error, later) →
            later.lastReported ≠ some later.line := by
  obtain ⟨lines, turns⟩ := (Scanner.ofSource source).exists_turns
  obtain ⟨notLast, rfl⟩ :=
    eq_takeLines_of_afterTurns turns small listener sink isHead
  have recorded :=
    takeLines_withSink listener Listener.transcript
      (lines.take number) (ofSource source sink) #[]
  have inStep :=
    (InStep.ofSource source sink).takeLines turns small listener number
  refine ⟨(TokenLine.history 1 (lines.take number)).toArray, ?_,
    sink_takeLines listener _ _,
    headInvariant_takeLines turns small listener sink notLast, ?_⟩
  · rw [(InStep.ofSource source #[]).afterTurns_eq turns small,
      if_pos notLast]
    rw [foldl_transcript] at recorded
    exact congrArg some recorded
  · intro error later found
    exact inStep.fresh_of_errorAhead? found

/-- The diagnostics of a parse are those of the lines of its text. -/
theorem diagnostics_eventsOf
    (turns : (Scanner.ofSource source).Turns lines) :
    (eventsOf source lines).filterMap Event.diagnostic? =
      TokenLine.diagnosticsFrom 1 (TokenLine.cut (scan source)) := by
  rw [eventsOf, List.filterMap_append]
  exact (List.append_nil _).trans (turns.diagnostics_eq 1)

/-- What holds of the events of a whole parse. -/
structure RunInvariant
    (source : String)
    (events : List Event) :
    Prop where
  /-- Every diagnostic stands on the line of the token in error. -/
  attributed : Attributed events
  /-- No line is reported twice, and no line before an earlier one. -/
  ascending :
    (events.filterMap Event.diagnostic?).Pairwise (·.line < ·.line)
  /-- Only lines of the text are reported. -/
  within :
    ∀ diagnostic ∈ events.filterMap Event.diagnostic?,
      1 ≤ diagnostic.line.toNat ∧
        diagnostic.line.toNat ≤ (source.toList.splitOn '\n').length

/-- The events of all turns satisfy the invariant of a whole parse. -/
theorem runInvariant_eventsOf
    (turns : (Scanner.ofSource source).Turns lines)
    (small : source.toList.count '\n' + 3 ≤ UInt32.size) :
    RunInvariant source (eventsOf source lines) := by
  have inStep := InStep.ofSource source ()
  have attributed : Attributed (eventsOf source lines) :=
    (inStep.attributed_history turns small).append (.log _ .nil)
  have diagnostics := diagnostics_eventsOf turns
  have tokens :
      (eventsOf source lines).filterMap Event.token? =
        lines.flatMap TokenLine.tokens := by
    rw [eventsOf, List.filterMap_append,
      TokenLine.filterMap_token?_history]
    exact List.append_nil _
  have fits := length_cut_scan_lt small
  obtain ⟨ascending, positive⟩ :=
    TokenLine.ascending_diagnosticsFrom 1
      (TokenLine.cut (scan source)) (by omega)
  refine ⟨attributed, ?_, ?_⟩
  · rw [diagnostics]
    exact ascending
  · intro diagnostic reported
    obtain ⟨token, wasRead, sameLine⟩ := attributed.exists_token reported
    rw [tokens] at wasRead
    rw [diagnostics] at reported
    have startLine : (Scanner.ofSource source).line.toNat = 1 := rfl
    have startFeeds :
        (Scanner.ofSource source).lineFeeds =
          source.toList.count '\n' := rfl
    have notBeyond :=
      Scanner.toNat_line_le_of_ahead turns.ahead (by omega) token wasRead
    refine ⟨positive diagnostic reported, ?_⟩
    rw [Text.length_splitOn_lineFeed, ← sameLine]
    omega

/-- The line of a finished parse is exact as well. -/
theorem toNat_line_run
    (small : source.toList.count '\n' + 3 ≤ UInt32.size)
    (listener : Listener σ)
    (sink : σ) :
    ((ofSource source sink).run listener).line.toNat =
      1 + (scan source).countP Token.beginsLine := by
  obtain ⟨lines, turns⟩ := (Scanner.ofSource source).exists_turns
  obtain ⟨extra, shape, -, allEnd⟩ := turns.cut_eq
  have inStep := InStep.ofSource source sink
  have counted :=
    (inStep.takeLines turns small listener lines.length).counted
  have none :
      (extra.flatMap TokenLine.tokens).countP Token.beginsLine = 0 := by
    rw [List.countP_flatMap, List.sum_eq_zero_iff_forall_eq_nat]
    intro count member
    obtain ⟨line, isExtra, rfl⟩ := List.mem_map.mp member
    rw [Function.comp_apply, line.countP_beginsLine,
      if_pos (allEnd line isExtra).2]
  have tokens :
      (lines.flatMap TokenLine.tokens).countP Token.beginsLine =
        (scan source).countP Token.beginsLine := by
    rw [shape, List.flatMap_append, List.countP_append, none,
      TokenLine.flatMap_tokens_cut]
    rfl
  rw [List.take_length, List.nil_append, tokens] at counted
  rw [inStep.run_eq turns small]
  exact counted

end run

end Parser

/--
The invariant of the statement loop.  It holds before every turn of every
parse, whatever listens: lines are counted exactly, parser and scanner agree up
to an open comment at the end, and nothing ahead has been reported.  Every error
that a turn comes upon is therefore reported: in that turn the listener hears
of it, for the line of the parser, and of no other.  Over the whole parse every
diagnostic stands on the line of the token in error, diagnostics ascend within
the lines of the text, they are what the parse counts, and no line number of
the parser or of the scanner wraps around.
-/
theorem loop_invariant
    {σ : Type u}
    (source : String)
    (small : source.toList.count '\n' ≤ 2 ^ 32 - 3)
    (listener : Listener σ)
    (sink : σ) :
    (∀ number head,
        (Parser.ofSource source sink).afterTurns listener number =
            some head →
          ∃ events : Array Event,
            (Parser.ofSource source #[]).afterTurns .transcript number =
                some (head.withSink events) ∧
              head.sink = events.toList.foldl listener.hear sink ∧
              Parser.HeadInvariant source events.toList head ∧
              ∀ error later,
                head.errorAhead? listener = some (error, later) →
                  head.step listener =
                      .again (later.reject listener error) ∧
                    later.lastReported ≠ some later.line ∧
                    ∃ read discarded : List Event,
                      (read ++ discarded).filterMap Event.diagnostic? =
                          [] ∧
                        (later.reject listener error).sink =
                          (read ++ .report ⟨later.line, error⟩ ::
                            discarded).foldl listener.hear head.sink) ∧
      (let events := (transcribe source).2.toList
       Parser.RunInvariant source events ∧
        (parse listener sink source).2 =
            events.foldl listener.hear sink ∧
          (parse listener sink source).1.errorCount =
            (events.filterMap Event.diagnostic?).length) ∧
      ((Parser.ofSource source sink).run listener).line.toNat =
          1 + (scan source).countP Token.beginsLine ∧
        ∀ number,
          let scanner :=
            (Scanner.ofSource source).skip ((scan source).take number)
          scanner.line.toNat + scanner.rest.count '\n' =
            1 + source.toList.count '\n' := by
  have noWrap : source.toList.count '\n' + 3 ≤ UInt32.size := by
    have size : UInt32.size = 2 ^ 32 := rfl
    omega
  obtain ⟨lines, turns⟩ := (Scanner.ofSource source).exists_turns
  have transcript := Parser.toList_transcribe turns noWrap
  refine ⟨?_, ⟨?_, ?_, ?_⟩, Parser.toNat_line_run noWrap listener sink, ?_⟩
  · intro number head isHead
    obtain ⟨events, recorded, heard, invariant, fresh⟩ :=
      Parser.exists_headInvariant noWrap listener sink isHead
    refine ⟨events, recorded, heard, invariant, ?_⟩
    intro error later found
    exact
      ⟨Parser.step_of_errorAhead? found, fresh error later found,
        Parser.sink_of_errorAhead? found (fresh error later found)⟩
  · rw [transcript]
    exact Parser.runInvariant_eventsOf turns noWrap
  · rw [transcript]
    exact Parser.sink_parse turns noWrap listener sink
  · rw [transcript, Parser.diagnostics_eventsOf turns,
      report_parse noWrap, TokenLine.diagnostics, List.size_toArray]
  · intro number
    have small : 1 + source.toList.count '\n' < UInt32.size := by
      omega
    exact Scanner.toNat_line_skip _ small

/--
A text that ends in a comment.  Behind the comment the parser is one line ahead
of the scanner.
-/
theorem loop_invariant_open_comment :
    let source := "foo\nnop // open"
    let start := Parser.ofSource source #[]
    source.toList.count '\n' ≤ 2 ^ 32 - 3 ∧
      Parser.RunInvariant source (transcribe source).2.toList ∧
      (start.afterTurns .collector 2).map
          (fun head => (head.line, head.scanner.line)) =
        some (3, 2) ∧
      ∀ head, start.afterTurns .collector 2 = some head →
        ∃ events, Parser.HeadInvariant source events head := by
  intro source start
  have small : source.toList.count '\n' ≤ 2 ^ 32 - 3 := by
    decide
  obtain ⟨heads, ⟨whole, -, -⟩, -, -⟩ :=
    loop_invariant source small Listener.collector #[]
  refine ⟨small, whole, by decide +kernel, ?_⟩
  intro head isHead
  obtain ⟨events, -, -, invariant, -⟩ := heads 2 head isHead
  exact ⟨events.toList, invariant⟩

end Iloc
