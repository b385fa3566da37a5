import Iloc.Proofs.Parser.LoopInvariant

namespace Iloc

/-!
# Listeners take no part

A parse hands its events to a listener and takes nothing back.  If what one
listener makes of the events shows what another one would have made of them,
then the parse that the one follows shows the parse that the other would have
followed, turn by turn and up to the end.

The transcript shows what any listener would have made of the events, so a
parse is the same whatever listens to it, and every listener hears what the
transcript holds.  This is so for every text, however many lines it has.
-/

universe u v

/-- A view of one listener's states in which another listener takes its part. -/
structure Listener.View
    {σ : Type u}
    {τ : Type v}
    (listener : Listener σ)
    (other : Listener τ) where
  view : σ → τ
  view_hear :
    ∀ state event,
      view (listener.hear state event) = other.hear (view state) event

namespace Parser

variable {σ : Type u} {τ : Type v}

/-- The same parser in a view of what its listener has made of the events. -/
def seen
    (view : σ → τ)
    (parser : Parser σ) :
    Parser τ :=
  parser.withSink (view parser.sink)

/-- The same turn in a view of what the listener has made of the events. -/
def Turn.seen (view : σ → τ) : Turn σ → Turn τ
  | .again parser => .again (parser.seen view)
  | .done parser => .done (parser.seen view)

section view

variable {listener : Listener σ} {other : Listener τ}
variable (shows : listener.View other)

theorem emit_seen
    (event : Event)
    (parser : Parser σ) :
    (parser.seen shows.view).emit other event =
      (parser.emit listener event).seen shows.view :=
  congrArg parser.withSink (shows.view_hear parser.sink event).symm

theorem pull_seen
    (parser : Parser σ) :
    (parser.seen shows.view).pull other =
      ((parser.pull listener).1,
        (parser.pull listener).2.seen shows.view) :=
  congrArg (Prod.mk parser.scanner.next.1.kind)
    (emit_seen shows (.log (.scanned parser.scanner.next.1))
      { parser with scanner := parser.scanner.next.2 })

theorem endLine_seen
    (view : σ → τ)
    (terminator : TokenKind)
    (parser : Parser σ) :
    (parser.seen view).endLine terminator =
      (parser.endLine terminator).seen view := by
  cases terminator <;> rfl

/-- A form is followed to the same outcome. -/
theorem check_seen
    (opClass : OpClass)
    {form : Form}
    {pattern : List Terminal}
    {build : List UInt32 → Option Instruction}
    (follows : form.Follows pattern build)
    (parser : Parser σ) :
    (parser.seen shows.view).check other opClass form =
      ((parser.check listener opClass form).1,
        (parser.check listener opClass form).2.seen shows.view) := by
  induction follows generalizing parser with
  | place form inside behind inductionHypothesis =>
      rw [check_of_place other opClass inside,
        check_of_place listener opClass inside, pull_seen shows]
      cases goesOn : form.behind? (parser.pull listener).1 with
      | none =>
          rfl
      | some next =>
          exact inductionHypothesis _ next goesOn (parser.pull listener).2
  | endOfLine built =>
      rw [check, check, pull_seen shows]
      dsimp only
      split
      · rw [endLine_seen]
      · rfl

theorem commit_seen
    (instruction : Instruction)
    (parser : Parser σ) :
    (parser.seen shows.view).commit other instruction =
      (parser.commit listener instruction).seen shows.view := by
  have heard :=
    emit_seen shows (.log (.committed parser.line instruction)) parser
  exact
    congrArg
      (fun later : Parser τ =>
        { later with program := later.program.push instruction })
      heard

theorem report_seen
    (error : StatementError)
    (parser : Parser σ) :
    (parser.seen shows.view).report other error =
      (parser.report listener error).seen shows.view := by
  rw [report, report, apply_ite (seen shows.view)]
  refine if_congr Iff.rfl rfl ?_
  exact
    emit_seen shows (.report ⟨parser.line, error⟩)
      { parser with
        lastReported := some parser.line
        errorCount := parser.errorCount + 1 }

/-- The same rest of a line is discarded. -/
theorem sync_seen
    (parser : Parser σ) :
    (parser.seen shows.view).sync other =
      (parser.sync listener).seen shows.view := by
  fun_induction sync listener parser with
  | case1 parser pending found later ended =>
      have alsoPending :
          (parser.seen shows.view).pendingResync = true := pending
      rw [sync, if_pos alsoPending, pull_seen shows]
      dsimp only
      rw [if_pos ended]
      exact endLine_seen _ found { later with pendingResync := false }
  | case2 parser pending found later inner inductionHypothesis =>
      have alsoPending :
          (parser.seen shows.view).pendingResync = true := pending
      rw [sync, if_pos alsoPending, pull_seen shows]
      dsimp only
      rw [if_neg inner, ← inductionHypothesis, ← emit_seen shows]
      rfl
  | case3 parser settled =>
      have alsoSettled :
          ¬ (parser.seen shows.view).pendingResync = true := settled
      rw [sync, if_neg alsoSettled]

theorem reject_seen
    (error : StatementError)
    (parser : Parser σ) :
    (parser.seen shows.view).reject other error =
      (parser.reject listener error).seen shows.view := by
  rw [reject, reject, report_seen shows]
  split
  · rw [endLine_seen]
  · exact
      sync_seen shows
        { parser.report listener error with pendingResync := true }

theorem settle_seen
    (outcome : Except StatementError Instruction)
    (parser : Parser σ) :
    (parser.seen shows.view).settle other outcome =
      (parser.settle listener outcome).seen shows.view := by
  cases outcome with
  | ok instruction => exact commit_seen shows instruction parser
  | error error => exact reject_seen shows error parser

/-- The same turn is taken. -/
theorem step_seen
    (parser : Parser σ) :
    (parser.seen shows.view).step other =
      (parser.step listener).seen shows.view := by
  rw [step, step, pull_seen shows]
  generalize parser.pull listener = pulled
  obtain ⟨kind, later⟩ := pulled
  cases kind with
  | eof =>
      rfl
  | newLine =>
      exact congrArg Turn.again (endLine_seen _ .newLine later)
  | comment =>
      exact congrArg Turn.again (endLine_seen _ .comment later)
  | opcode opcode =>
      dsimp only
      rw [check_seen shows opcode.opClass opcode.form_follows]
      exact congrArg Turn.again (settle_seen shows _ _)
  | _ =>
      exact congrArg Turn.again (settle_seen shows _ later)

/-- All turns are the same up to the end. -/
theorem run_seen
    (parser : Parser σ) :
    (parser.seen shows.view).run other =
      (parser.run listener).seen shows.view := by
  fun_induction run listener parser with
  | case1 parser later turn inductionHypothesis =>
      have sameTurn := step_seen shows parser
      rw [turn] at sameTurn
      rw [run_of_again sameTurn]
      exact inductionHypothesis
  | case2 parser later turn =>
      have sameTurn := step_seen shows parser
      rw [turn] at sameTurn
      exact run_of_done sameTurn

end view

end Parser

section parse

variable {σ : Type u} {τ : Type v}

/-- A view of what a listener makes of a parse is what the other makes of it. -/
theorem parse_view
    {listener : Listener σ}
    {other : Listener τ}
    (shows : listener.View other)
    (sink : σ)
    (source : String) :
    parse other (shows.view sink) source =
      ((parse listener sink source).1,
        shows.view (parse listener sink source).2) := by
  have start :
      Parser.ofSource source (shows.view sink) =
        (Parser.ofSource source sink).seen shows.view := rfl
  have ended := Parser.run_seen shows (Parser.ofSource source sink)
  rw [parse, start, ended, Parser.finish, Parser.emit_seen shows]
  rfl

/-- The transcript shows what a listener would have made of its events. -/
def Listener.ofTranscript
    (listener : Listener σ)
    (sink : σ) :
    Listener.transcript.View listener where
  view events := events.toList.foldl listener.hear sink
  view_hear events event := by
    rw [transcript, Array.toList_push, List.foldl_append]
    rfl

/--
A parse is what its transcript says, whatever listens to it: the report is the
same, and the listener hears the events of the transcript in order.
-/
theorem parse_eq_transcribe
    (listener : Listener σ)
    (sink : σ)
    (source : String) :
    parse listener sink source =
      ((transcribe source).1,
        (transcribe source).2.toList.foldl listener.hear sink) :=
  parse_view (listener.ofTranscript sink) #[] source

end parse

end Iloc
