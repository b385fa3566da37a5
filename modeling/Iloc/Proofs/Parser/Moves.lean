import Iloc.Proofs.Parser.Listening
import Mathlib.Logic.Relation

namespace Iloc

/-!
# The moves of a parser

All that a parser ever does is a sequence of moves of six kinds.  What every
move preserves therefore holds at the end of every parse, on any text.

Two things hold of every transcript.  The errors that the parser has counted
are the diagnostics that it has handed over, and every kind of token that the
events name is one that a scanner reads.
-/

universe u

/-- Whether tokens of a kind are ever read. -/
def TokenKind.IsScanned (kind : TokenKind) : Prop :=
  ∃ scanner : Scanner, scanner.next.1.kind = kind

/-- The tokens of a text are tokens that are read. -/
theorem Scanner.isScanned_of_mem_tokens
    {scanner : Scanner}
    {token : Token}
    (member : token ∈ scanner.tokens) :
    token.kind.IsScanned := by
  induction scanner using Scanner.induction_next with
  | ended scanner atEnd =>
      rw [Scanner.tokens_of_eof atEnd, List.mem_singleton] at member
      exact ⟨scanner, congrArg Token.kind member.symm⟩
  | inner scanner goesOn inductionHypothesis =>
      rw [Scanner.tokens_of_ne_eof goesOn, List.mem_cons] at member
      rcases member with isNext | later
      · exact ⟨scanner, congrArg Token.kind isNext.symm⟩
      · exact inductionHypothesis later

namespace Parser

variable {σ : Type u}

/-- One thing that a parser does to its state. -/
inductive Move (listener : Listener σ) : Parser σ → Parser σ → Prop where
  | pull
      (parser : Parser σ) :
      Move listener parser (parser.pull listener).2
  | endLine
      (terminator : TokenKind)
      (parser : Parser σ) :
      Move listener parser (parser.endLine terminator)
  | commit
      (instruction : Instruction)
      (parser : Parser σ) :
      Move listener parser (parser.commit listener instruction)
  | report
      {error : StatementError}
      (scanned : error.found.IsScanned)
      (parser : Parser σ) :
      Move listener parser (parser.report listener error)
  | skip
      {found : TokenKind}
      (scanned : found.IsScanned)
      (parser : Parser σ) :
      Move listener parser
        (parser.emit listener (.log (.skipped parser.line found)))
  | setPending
      (pending : Bool)
      (parser : Parser σ) :
      Move listener parser { parser with pendingResync := pending }

/-- A parser comes to another state in any number of moves. -/
def Reaches (listener : Listener σ) : Parser σ → Parser σ → Prop :=
  Relation.ReflTransGen (Move listener)

/-- The parser that a turn leaves. -/
def Turn.parser : Turn σ → Parser σ
  | .again parser => parser
  | .done parser => parser

section Reaches

variable (listener : Listener σ)

theorem isScanned_pull
    (parser : Parser σ) :
    (parser.pull listener).1.IsScanned :=
  ⟨parser.scanner, rfl⟩

/-- A form is followed in moves, and its mismatch is a token that was read. -/
theorem reaches_check
    (opClass : OpClass)
    {form : Form}
    {pattern : List Terminal}
    {build : List UInt32 → Option Instruction}
    (follows : form.Follows pattern build)
    (parser : Parser σ) :
    Reaches listener parser (parser.check listener opClass form).2 ∧
      ∀ error,
        (parser.check listener opClass form).1 = .error error →
          error.found.IsScanned := by
  induction follows generalizing parser with
  | place form inside behind inductionHypothesis =>
      rw [check_of_place listener opClass inside]
      cases goesOn : form.behind? (parser.pull listener).1 with
      | none =>
          refine ⟨.single (.pull parser), ?_⟩
          intro error isError
          cases isError
          exact isScanned_pull listener parser
      | some next =>
          obtain ⟨reached, scanned⟩ :=
            inductionHypothesis _ next goesOn (parser.pull listener).2
          exact ⟨.head (.pull parser) reached, scanned⟩
  | endOfLine built =>
      rw [check]
      dsimp only
      split
      · refine ⟨.tail (.single (.pull parser)) (.endLine _ _), ?_⟩
        intro error isError
        cases isError
      · refine ⟨.single (.pull parser), ?_⟩
        intro error isError
        cases isError
        exact isScanned_pull listener parser

theorem reaches_sync
    (parser : Parser σ) :
    Reaches listener parser (parser.sync listener) := by
  fun_induction sync listener parser with
  | case1 parser pending found later ended =>
      exact
        .tail (.tail (.single (.pull parser)) (.setPending false later))
          (.endLine found _)
  | case2 parser pending found later inner inductionHypothesis =>
      exact
        .head (.pull parser)
          (.head (.skip (isScanned_pull listener parser) later)
            inductionHypothesis)
  | case3 parser settled =>
      exact .refl

theorem reaches_settle
    {outcome : Except StatementError Instruction}
    (scanned : ∀ error, outcome = .error error → error.found.IsScanned)
    (parser : Parser σ) :
    Reaches listener parser (parser.settle listener outcome) := by
  cases outcome with
  | ok instruction =>
      exact .single (.commit instruction parser)
  | error error =>
      have reported :
          Move listener parser (parser.report listener error) :=
        .report (scanned error rfl) parser
      rw [settle, reject]
      split
      · exact .tail (.single reported) (.endLine _ _)
      · exact
          .head reported
            (.head (.setPending true _) (reaches_sync listener _))

theorem reaches_step
    (parser : Parser σ) :
    Reaches listener parser (parser.step listener).parser := by
  have scanned := isScanned_pull listener parser
  have first : Move listener parser (parser.pull listener).2 :=
    .pull parser
  rw [step]
  generalize parser.pull listener = pulled at scanned first
  obtain ⟨kind, later⟩ := pulled
  have misplaced :
      ∀ error,
        (Except.error (.notAnOpcode kind) :
            Except StatementError Instruction) =
          .error error →
        error.found.IsScanned := by
    intro error isError
    cases isError
    exact scanned
  cases kind with
  | eof =>
      exact .single first
  | newLine =>
      exact .tail (.single first) (.endLine .newLine later)
  | comment =>
      exact .tail (.single first) (.endLine .comment later)
  | opcode opcode =>
      obtain ⟨checked, mismatched⟩ :=
        reaches_check listener opcode.opClass opcode.form_follows later
      exact
        .head first
          (checked.trans (reaches_settle listener mismatched _))
  | _ =>
      exact .head first (reaches_settle listener misplaced later)

/-- A whole parse is a sequence of moves. -/
theorem reaches_run
    (parser : Parser σ) :
    Reaches listener parser (parser.run listener) := by
  fun_induction run listener parser with
  | case1 parser later turn inductionHypothesis =>
      have reached := reaches_step listener parser
      rw [turn] at reached
      exact reached.trans inductionHypothesis
  | case2 parser later turn =>
      have reached := reaches_step listener parser
      rw [turn] at reached
      exact reached

end Reaches

end Parser

/-- Events of a parse, in which every kind of token is one that is read. -/
def Event.Arises : Event → Prop
  | .log (.scanned token) => token.kind.IsScanned
  | .log (.committed _ _) => True
  | .log (.skipped _ found) => found.IsScanned
  | .log (.finished _ _) => True
  | .log .conflictingModes => False
  | .report diagnostic => diagnostic.error.found.IsScanned

namespace Parser

variable {σ : Type u} {listener : Listener σ}

/--
What a parser has added to an earlier state: it has told its listener some
events, and it has counted the diagnostics among them.
-/
structure Adds
    (listener : Listener σ)
    (events : List Event)
    (parser later : Parser σ) :
    Prop where
  heard : later.sink = events.foldl listener.hear parser.sink
  counted :
    later.errorCount =
      parser.errorCount + (events.filterMap Event.diagnostic?).length
  arises : ∀ event ∈ events, event.Arises

namespace Adds

variable {parser middle later : Parser σ} {first second : List Event}

/-- What does not concern the listener adds nothing. -/
theorem nothing
    (sameSink : later.sink = parser.sink)
    (sameCount : later.errorCount = parser.errorCount) :
    Adds listener [] parser later where
  heard := sameSink
  counted := sameCount
  arises := List.forall_mem_nil _

/-- A log record counts for no error. -/
theorem record
    (record : LogRecord)
    (arises : (Event.log record).Arises)
    (heard : later.sink = listener.hear parser.sink (.log record))
    (sameCount : later.errorCount = parser.errorCount) :
    Adds listener [.log record] parser later where
  heard := heard
  counted := sameCount
  arises := List.forall_mem_singleton.mpr arises

theorem append
    (before : Adds listener first parser middle)
    (after : Adds listener second middle later) :
    Adds listener (first ++ second) parser later := by
  refine ⟨?_, ?_, ?_⟩
  · rw [after.heard, before.heard, List.foldl_append]
  · rw [after.counted, before.counted, List.filterMap_append,
      List.length_append, Nat.add_assoc]
  · intro event member
    rcases List.mem_append.mp member with inFirst | inSecond
    · exact before.arises event inFirst
    · exact after.arises event inSecond

end Adds

variable {parser later : Parser σ}

/-- What one move adds. -/
theorem Move.exists_adds
    (move : Move listener parser later) :
    ∃ events, Adds listener events parser later := by
  cases move with
  | pull =>
      have scanned := isScanned_pull listener parser
      exact ⟨_, .record (.scanned parser.scanner.next.1) scanned rfl rfl⟩
  | endLine terminator =>
      refine ⟨[], .nothing ?_ ?_⟩
      · cases terminator <;> rfl
      · cases terminator <;> rfl
  | commit instruction =>
      exact
        ⟨_, .record (.committed parser.line instruction) trivial rfl rfl⟩
  | @report error scanned =>
      rw [Parser.report]
      split
      · exact ⟨[], .nothing rfl rfl⟩
      · refine ⟨[.report ⟨parser.line, error⟩], rfl, rfl, ?_⟩
        exact List.forall_mem_singleton.mpr scanned
  | @skip found scanned =>
      exact ⟨_, .record (.skipped parser.line found) scanned rfl rfl⟩
  | setPending pending =>
      exact ⟨[], .nothing rfl rfl⟩

/-- What any number of moves adds. -/
theorem exists_adds_of_reaches
    (reaches : Reaches listener parser later) :
    ∃ events, Adds listener events parser later := by
  induction reaches with
  | refl =>
      exact ⟨[], .nothing rfl rfl⟩
  | tail earlier move inductionHypothesis =>
      obtain ⟨first, before⟩ := inductionHypothesis
      obtain ⟨second, after⟩ := move.exists_adds
      exact ⟨_, before.append after⟩

end Parser

/-- What holds of the transcript of every parse. -/
theorem transcribe_adds
    (source : String) :
    let events := (transcribe source).2.toList
    (transcribe source).1.errorCount =
        (events.filterMap Event.diagnostic?).length ∧
      ∀ event ∈ events, event.Arises := by
  let start : Parser (Array Event) := .ofSource source #[]
  let ended := start.run .transcript
  let totals : LogRecord :=
    .finished ended.program.size ended.errorCount
  obtain ⟨events, added⟩ :=
    Parser.exists_adds_of_reaches
      (Parser.reaches_run Listener.transcript start)
  have whole :
      Parser.Adds .transcript (events ++ [.log totals]) start
        (ended.finish .transcript) :=
    added.append (.record totals trivial rfl rfl)
  have recorded :
      (transcribe source).2.toList = events ++ [.log totals] := by
    have heard :
        (transcribe source).2 =
          (events ++ [Event.log totals]).foldl Listener.transcript.hear #[] :=
      whole.heard
    rw [heard, Parser.foldl_transcript]
  intro transcript
  rw [show transcript = _ from recorded]
  exact ⟨whole.counted.trans (Nat.zero_add _), whole.arises⟩

end Iloc
