import Iloc.Proofs.Parser.History
import Iloc.Proofs.Parser.Simulation

namespace Iloc

/-!
# A statement is checked as a whole

The check of a statement reads tokens, and while it reads it decides nothing.  A
check that fails leaves the parser as it was but for its place in the text, also
when it fails on a token that ends the line: the line is not counted then.  A
check that passes has read the line to its end, and counts it.

Discarding a line stops behind the first token that ends one, and counts the
line in the same way.  So a line is counted once, whether its terminator is read
by the check that passes, by the check that fails, or while the rest of the line
is discarded.
-/

universe u

namespace Parser

variable {σ : Type u}

/--
A parser has read some tokens and logged each of them once.  What it has found
out about the text is what it had found out before.
-/
structure OnlyReads
    (listener : Listener σ)
    (pulled : List Token)
    (parser later : Parser σ) :
    Prop where
  ahead : parser.scanner.Ahead pulled
  scanner_eq : later.scanner = parser.scanner.skip pulled
  program_eq : later.program = parser.program
  errorCount_eq : later.errorCount = parser.errorCount
  lastReported_eq : later.lastReported = parser.lastReported
  heard :
    ∃ events : List Event,
      events.filterMap Event.token? = pulled ∧
        events.filterMap Event.diagnostic? = [] ∧
        later.sink = events.foldl listener.hear parser.sink

/-- What the check of a statement comes to, if a line is ahead. -/
inductive ChecksLine
    (listener : Listener σ)
    (opClass : OpClass)
    (line : TokenLine)
    (parser : Parser σ) :
    Except StatementError Instruction × Parser σ → Prop where
  /-- Up to the first token that does not fit, and nothing has changed. -/
  | failed
      {mismatch : Mismatch}
      {later : Parser σ}
      (isFirst :
        firstMismatch? opClass.pattern line.tokens = some mismatch)
      (reads : OnlyReads listener mismatch.read parser later)
      (uncounted : later.line = parser.line)
      (samePending : later.pendingResync = parser.pendingResync) :
      ChecksLine listener opClass line parser
        (.error
          (.mismatch opClass mismatch.expected mismatch.found.kind),
          later)
  /-- Up to the end of the line, which is counted. -/
  | passed
      {instruction : Instruction}
      {later : Parser σ}
      (fits : firstMismatch? opClass.pattern line.tokens = none)
      (reads : OnlyReads listener line.tokens parser later)
      (counted : later.line = line.numberBehind parser.line)
      (samePending : later.pendingResync = parser.pendingResync) :
      ChecksLine listener opClass line parser (.ok instruction, later)

/-- What discarding the rest of a line comes to. -/
structure DiscardsLine
    (listener : Listener σ)
    (line : TokenLine)
    (parser later : Parser σ) :
    Prop where
  reads : OnlyReads listener line.tokens parser later
  counted : later.line = line.numberBehind parser.line
  settled : later.pendingResync = false

variable {listener : Listener σ} {line : TokenLine}
variable {pulled : List Token} {parser later : Parser σ}

namespace OnlyReads

/-- A reporter is told nothing while tokens are read. -/
theorem sink_eq
    {report : σ → Diagnostic → σ}
    (reads : OnlyReads (.ofReporter report) pulled parser later) :
    later.sink = parser.sink := by
  obtain ⟨events, -, untold, heard⟩ := reads.heard
  rw [heard, Listener.foldl_ofReporter, untold]
  rfl

/-- Moving on in the text is reading if the events log the tokens passed. -/
theorem advance
    {events : List Event}
    (ahead : parser.scanner.Ahead pulled)
    (logged : events.filterMap Event.token? = pulled)
    (silent : ∀ event ∈ events, event.diagnostic? = none) :
    OnlyReads listener pulled parser
      (parser.advance listener events (parser.scanner.skip pulled)) :=
  ⟨ahead, rfl, rfl, rfl, rfl, events, logged,
    List.filterMap_eq_nil_iff.mpr silent, rfl⟩

/-- What has been read does not depend on how lines are counted. -/
theorem recount
    (reads : OnlyReads listener pulled parser later)
    (number : UInt32)
    (pending : Bool) :
    OnlyReads listener pulled parser
      { later with line := number, pendingResync := pending } :=
  ⟨reads.ahead, reads.scanner_eq, reads.program_eq, reads.errorCount_eq,
    reads.lastReported_eq, reads.heard⟩

end OnlyReads

/-- Whether it fails or passes, a check only reads. -/
theorem ChecksLine.onlyReads
    {opClass : OpClass}
    {outcome : Except StatementError Instruction × Parser σ}
    (checks : ChecksLine listener opClass line parser outcome) :
    ∃ pulled, OnlyReads listener pulled parser outcome.2 := by
  cases checks with
  | failed isFirst reads uncounted samePending =>
      exact ⟨_, reads⟩
  | passed fits reads counted samePending =>
      exact ⟨_, reads⟩

/-- The check of a statement fails or passes as a whole. -/
theorem checksLine_check
    (listener : Listener σ)
    (opcode : Opcode)
    (ahead : parser.scanner.Ahead line.tokens) :
    ChecksLine listener opcode.opClass line parser
      (parser.check listener opcode.opClass opcode.form) := by
  have outcome :=
    check_of_follows listener opcode.opClass opcode.form_follows parser
      line.inner line.ended ahead
  cases compared :
      firstMismatch? opcode.opClass.pattern
        (line.body ++ [line.terminator]) with
  | some mismatch =>
      rw [compared] at outcome
      rw [show parser.check listener _ _ = _ from outcome]
      have readAhead : parser.scanner.Ahead mismatch.read := by
        have wholeAhead := ahead
        rw [TokenLine.tokens, ← Mismatch.read_append_unread compared,
          Scanner.ahead_append] at wholeAhead
        exact wholeAhead.1
      exact
        .failed compared
          (.advance readAhead (Token.filterMap_token?_scanned _)
            (Token.silent_scanned _))
          rfl rfl
  | none =>
      rw [compared] at outcome
      obtain ⟨instruction, -, passes⟩ := outcome
      rw [passes, endLine_of_ended line.ended]
      have reads :
          OnlyReads listener line.tokens parser
            (parser.advance listener (line.tokens.map Token.scanned)
              (parser.scanner.skip line.tokens)) :=
        .advance ahead (Token.filterMap_token?_scanned _)
          (Token.silent_scanned _)
      exact .passed compared (reads.recount _ _) rfl rfl

/-- Discarding stops behind the line ahead, and counts it. -/
theorem discardsLine_sync
    (listener : Listener σ)
    (pending : parser.pendingResync = true)
    (ahead : parser.scanner.Ahead line.tokens) :
    DiscardsLine listener line parser (parser.sync listener) := by
  have stops :=
    sync_of_ahead listener parser line.inner line.ended pending ahead
  rw [stops, endLine_of_ended line.ended]
  have reads :
      OnlyReads listener line.tokens parser
        (parser.advance listener
          (line.tokens.flatMap (Token.discarded parser.line))
          (parser.scanner.skip line.tokens)) :=
    .advance ahead (Token.filterMap_token?_discarded _ _)
      (Token.silent_discarded _ _)
  exact ⟨reads.recount _ _, rfl, rfl⟩

/-- Reporting an error does not count a line. -/
theorem line_report
    (listener : Listener σ)
    (error : StatementError)
    (parser : Parser σ) :
    (parser.report listener error).line = parser.line := by
  rw [report_eq]
  rfl

/-- A rejection counts the line if the token in error has ended it. -/
theorem reject_of_ended
    (listener : Listener σ)
    {error : StatementError}
    (isLast : error.found = line.terminator.kind)
    (parser : Parser σ) :
    (parser.reject listener error).scanner = parser.scanner ∧
      (parser.reject listener error).line =
        line.numberBehind parser.line := by
  have ended : error.found.isLineEnd = true := by
    rw [isLast]
    exact line.ended
  rw [reject]
  simp only [ended, ↓reduceIte]
  rw [endLine_of_ended ended, scanner_report, line_report, isLast]
  exact ⟨rfl, rfl⟩

/-- Otherwise discarding what is left of the line counts it. -/
theorem reject_of_inner
    (listener : Listener σ)
    {error : StatementError}
    {discarded : List Token}
    (inLine : error.found.isLineEnd = false)
    (inner : ∀ token ∈ discarded, token.kind.isLineEnd = false)
    (ahead :
      parser.scanner.Ahead (discarded ++ [line.terminator])) :
    (parser.reject listener error).scanner =
        parser.scanner.skip (discarded ++ [line.terminator]) ∧
      (parser.reject listener error).line =
        line.numberBehind parser.line := by
  rw [← scanner_report listener error parser] at ahead ⊢
  rw [← line_report listener error parser, reject]
  simp only [inLine, Bool.false_eq_true, ↓reduceIte]
  rw [sync_of_ahead listener
      { parser.report listener error with pendingResync := true }
      inner line.ended rfl ahead,
    endLine_of_ended line.ended]
  exact ⟨rfl, rfl⟩

/--
Once the outcome of a check is settled, the line has been read to its end and
has been counted, whoever has read its terminator.
-/
theorem ChecksLine.settle
    {opClass : OpClass}
    {outcome : Except StatementError Instruction × Parser σ}
    (checks : ChecksLine listener opClass line parser outcome)
    (ahead : parser.scanner.Ahead line.tokens) :
    (outcome.2.settle listener outcome.1).scanner =
        parser.scanner.skip line.tokens ∧
      (outcome.2.settle listener outcome.1).line =
        line.numberBehind parser.line := by
  cases checks with
  | passed fits reads counted samePending =>
      exact ⟨reads.scanner_eq, counted⟩
  | @failed mismatch later isFirst reads uncounted samePending =>
      have split := Mismatch.read_append_unread isFirst
      rw [← split, Scanner.ahead_append, ← reads.scanner_eq] at ahead
      rw [← split, Scanner.skip_append, ← reads.scanner_eq, ← uncounted]
      rcases TokenLine.cases_of_split split with
          ⟨nothing, isLast⟩ | ⟨inLine, discarded, unreadShape, inner⟩
      · -- The check has read the terminator.
        have sameKind :
            (StatementError.mismatch opClass mismatch.expected
              mismatch.found.kind).found = line.terminator.kind :=
          congrArg Token.kind isLast
        rw [nothing]
        exact reject_of_ended listener sameKind later
      · -- The terminator is among the tokens left.
        rw [unreadShape] at ahead ⊢
        exact reject_of_inner listener inLine inner ahead.2

end Parser

/--
A statement is checked as a whole, and its line is counted once.  In whatever
state a parser is, the tokens ahead begin with a line, and

* checking the statement of any opcode either reads up to the first token that
  does not fit and changes nothing, or reads the line and counts it;
* discarding what is left of a broken line reads that line and counts it;
* once the outcome of the check is settled, the line has been read and counted,
  in both cases;
* a reporter is told nothing, neither by the check nor while tokens are
  discarded.
-/
theorem check_all_or_nothing
    {σ : Type u}
    (listener : Listener σ)
    (parser : Parser σ) :
    ∃ line : TokenLine,
      let broken := { parser with pendingResync := true }
      Parser.DiscardsLine listener line broken (broken.sync listener) ∧
        (∀ opcode : Opcode,
          let checked :=
            parser.check listener opcode.opClass opcode.form
          let settled := checked.2.settle listener checked.1
          Parser.ChecksLine listener opcode.opClass line parser checked ∧
            settled.scanner = parser.scanner.skip line.tokens ∧
            settled.line = line.numberBehind parser.line) ∧
        ∀ report : σ → Diagnostic → σ,
          let reporter := Listener.ofReporter report
          (broken.sync reporter).sink = parser.sink ∧
            ∀ opcode : Opcode,
              (parser.check reporter opcode.opClass
                opcode.form).2.sink = parser.sink := by
  obtain ⟨line, reads⟩ := parser.scanner.exists_readsLine
  have ahead := reads.ahead
  refine ⟨line, ?_⟩
  intro broken
  refine ⟨Parser.discardsLine_sync listener rfl ahead, ?_, ?_⟩
  · intro opcode checked settled
    have checks := Parser.checksLine_check listener opcode ahead
    exact ⟨checks, checks.settle ahead⟩
  · intro report reporter
    have discards : Parser.DiscardsLine reporter line broken _ :=
      Parser.discardsLine_sync reporter rfl ahead
    refine ⟨discards.reads.sink_eq, ?_⟩
    intro opcode
    have checks := Parser.checksLine_check reporter opcode ahead
    obtain ⟨pulled, reads⟩ := checks.onlyReads
    exact reads.sink_eq

/-- A line feed that breaks a statement is counted by its rejection alone. -/
example :
    let parser := Parser.ofSource "r1\nnop" #[]
    let checked :=
      parser.check .collector .arithOp (Opcode.arith .add).form
    let settled := checked.2.settle .collector checked.1
    checked.2.line = 1 ∧ settled.line = 2 ∧
      settled.pendingResync = false := by
  decide +kernel

end Iloc
