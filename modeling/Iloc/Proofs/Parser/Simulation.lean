import Iloc.Proofs.Parser.TokenLine

namespace Iloc

/-!
# One turn of the parser is one line

The parser reads a statement token by token, while the reference looks at the
whole line.  This module shows that a turn of the parser does to its state
exactly what the reference says about the line ahead: where the scanner stands
afterwards, which instruction is added, which error is reported, and what the
listener hears in between.

A form is followed place by place, so the parser agrees with the pattern of
the form up to the first token that does not fit.

An error is reported unless the last report was for a line of the same number.
Whether that can be is none of a single turn's business, so a turn is described
for both cases.
-/

namespace Form

/-- What a form has at its first place. -/
def place : Form → Terminal
  | .register _ => .register
  | .constant _ => .constant
  | .comma _ => .comma
  | .into _ => .into
  | .endOfLine _ => .endOfLine

/-- What remains of a form behind a token that fits its first place. -/
def behind? : Form → TokenKind → Option Form
  | .register rest, .register number => some (rest number)
  | .constant rest, .constant value => some (rest value)
  | .comma rest, .comma => some rest
  | .into rest, .into => some rest
  | _, _ => none

/--
A form follows a pattern, and its end holds what `build` makes of the operands
on the way.
-/
inductive Follows :
    Form → List Terminal →
      (List UInt32 → Option Instruction) → Prop where
  | place
      (form : Form)
      {pattern : List Terminal}
      {build : List UInt32 → Option Instruction}
      (inner : form.place ≠ .endOfLine)
      (behind :
        ∀ kind next, form.behind? kind = some next →
          Follows next pattern
            (fun values => build (kind.operand?.toList ++ values))) :
      Follows form (form.place :: pattern) build
  | endOfLine
      {instruction : Instruction}
      {build : List UInt32 → Option Instruction}
      (built : build [] = some instruction) :
      Follows (.endOfLine instruction) [.endOfLine] build

namespace Follows

variable {pattern : List Terminal}
variable {build : List UInt32 → Option Instruction}

theorem register
    {rest : UInt32 → Form}
    (follows :
      ∀ number, (rest number).Follows pattern
        (fun values => build (number :: values))) :
    (Form.register rest).Follows (.register :: pattern) build := by
  refine .place (.register rest) (by simp [Form.place]) ?_
  intro kind next fits
  cases kind with
  | register number =>
      obtain rfl := Option.some.inj fits
      exact follows number
  | _ => cases fits

theorem constant
    {rest : UInt32 → Form}
    (follows :
      ∀ value, (rest value).Follows pattern
        (fun values => build (value :: values))) :
    (Form.constant rest).Follows (.constant :: pattern) build := by
  refine .place (.constant rest) (by simp [Form.place]) ?_
  intro kind next fits
  cases kind with
  | constant value =>
      obtain rfl := Option.some.inj fits
      exact follows value
  | _ => cases fits

theorem comma
    {rest : Form}
    (follows : rest.Follows pattern build) :
    (Form.comma rest).Follows (.comma :: pattern) build := by
  refine .place (.comma rest) (by simp [Form.place]) ?_
  intro kind next fits
  cases kind with
  | comma =>
      obtain rfl := Option.some.inj fits
      exact follows
  | _ => cases fits

theorem into
    {rest : Form}
    (follows : rest.Follows pattern build) :
    (Form.into rest).Follows (.into :: pattern) build := by
  refine .place (.into rest) (by simp [Form.place]) ?_
  intro kind next fits
  cases kind with
  | into =>
      obtain rfl := Option.some.inj fits
      exact follows
  | _ => cases fits

end Follows

/-- A token fits the first place of a form exactly when the form goes on. -/
theorem admits_place
    {form : Form}
    (inner : form.place ≠ .endOfLine)
    (kind : TokenKind) :
    form.place.admits kind = (form.behind? kind).isSome := by
  cases form with
  | endOfLine instruction =>
      exact absurd rfl inner
  | _ => cases kind <;> rfl

end Form

/-- The form of an opcode follows the pattern of its class. -/
theorem Opcode.form_follows
    (opcode : Opcode) :
    opcode.form.Follows opcode.opClass.pattern opcode.instruction? := by
  cases opcode with
  | mem op =>
      exact .register fun _ => .into (.register fun _ => .endOfLine rfl)
  | loadI =>
      exact .constant fun _ => .into (.register fun _ => .endOfLine rfl)
  | arith op =>
      exact .register fun _ => .comma (.register fun _ =>
        .into (.register fun _ => .endOfLine rfl))
  | output =>
      exact .constant fun _ => .endOfLine rfl
  | nop =>
      exact .endOfLine rfl

/--
The events of reading a line with a given number, where the diagnostics that are
handed over may be others than the error of the line.
-/
def TokenLine.eventsTelling
    (line : TokenLine)
    (number : UInt32)
    (told : List Diagnostic) :
    List Event :=
  match line.judge with
  | .rejected _ read unread =>
      read.map Token.scanned ++ told.map Event.report ++
        unread.flatMap (Token.discarded number)
  | _ => line.events number

namespace Parser

universe u

variable {σ : Type u}

/-- A parser that has moved on in the text while its listener heard events. -/
def advance
    (listener : Listener σ)
    (events : List Event)
    (scanner : Scanner)
    (parser : Parser σ) :
    Parser σ :=
  { parser with
    scanner := scanner
    sink := events.foldl listener.hear parser.sink }

@[simp]
theorem advance_advance
    (listener : Listener σ)
    (first second : List Event)
    (middle later : Scanner)
    (parser : Parser σ) :
    (parser.advance listener first middle).advance listener second later =
      parser.advance listener (first ++ second) later := by
  simp [advance]

/-- Reading a token logs it. -/
theorem pull_eq
    (listener : Listener σ)
    (parser : Parser σ) :
    parser.pull listener =
      (parser.scanner.next.1.kind,
        parser.advance listener [parser.scanner.next.1.scanned]
          parser.scanner.next.2) := rfl

/-- A place is checked by reading one token, wherever the form goes on. -/
theorem check_of_place
    (listener : Listener σ)
    (opClass : OpClass)
    {form : Form}
    (inner : form.place ≠ .endOfLine)
    (parser : Parser σ) :
    parser.check listener opClass form =
      match form.behind? (parser.pull listener).1 with
      | some next => (parser.pull listener).2.check listener opClass next
      | none =>
          (.error (.mismatch opClass form.place (parser.pull listener).1),
            (parser.pull listener).2) := by
  cases form with
  | register rest =>
      rw [check]
      split <;> simp_all [Form.behind?, Form.place]
  | constant rest =>
      rw [check]
      split <;> simp_all [Form.behind?, Form.place]
  | comma rest =>
      rw [check]
      split <;> simp_all [Form.behind?, Form.place]
  | into rest =>
      rw [check]
      split <;> simp_all [Form.behind?, Form.place]
  | endOfLine instruction =>
      exact absurd rfl inner

/--
What following a form comes to, if the rest of a line is ahead: the error of
the first mismatch as soon as it is read, or the instruction when the line has
been read to its end.
-/
def CheckOutcome
    (listener : Listener σ)
    (opClass : OpClass)
    (build : List UInt32 → Option Instruction)
    (operands : List Token)
    (terminator : Token)
    (parser : Parser σ)
    (outcome : Except StatementError Instruction × Parser σ) :
    Option Mismatch → Prop
  | some mismatch =>
      outcome =
        (.error (.mismatch opClass mismatch.expected mismatch.found.kind),
          parser.advance listener (mismatch.read.map Token.scanned)
            (parser.scanner.skip mismatch.read))
  | none =>
      ∃ instruction,
        build (operands.filterMap (·.kind.operand?)) =
            some instruction ∧
          outcome =
            (.ok instruction,
              (parser.advance listener
                ((operands ++ [terminator]).map Token.scanned)
                (parser.scanner.skip (operands ++ [terminator]))).endLine
                  terminator.kind)

/-- A token that fits its place is read before the rest of the line. -/
theorem CheckOutcome.prepend
    {listener : Listener σ}
    {opClass : OpClass}
    {build : List UInt32 → Option Instruction}
    {token : Token}
    {rest : List Token}
    {terminator : Token}
    {parser : Parser σ}
    {outcome : Except StatementError Instruction × Parser σ}
    {mismatch? : Option Mismatch}
    (restOutcome :
      CheckOutcome listener opClass
        (fun values => build (token.kind.operand?.toList ++ values))
        rest terminator
        (parser.advance listener [token.scanned] parser.scanner.next.2)
        outcome mismatch?) :
    CheckOutcome listener opClass build (token :: rest) terminator parser
      outcome (mismatch?.map (Mismatch.prepend token)) := by
  cases mismatch? with
  | some mismatch =>
      refine restOutcome.trans ?_
      rw [advance_advance]
      rfl
  | none =>
      obtain ⟨instruction, built, accepted⟩ := restOutcome
      refine ⟨instruction, ?_, accepted.trans ?_⟩
      · rw [List.filterMap_cons]
        cases operand : token.kind.operand? with
        | none =>
            rw [operand] at built
            exact built
        | some value =>
            rw [operand] at built
            exact built
      · rw [advance_advance]
        rfl

theorem behind?_of_ended
    (form : Form)
    {kind : TokenKind}
    (ended : kind.isLineEnd = true) :
    form.behind? kind = none := by
  cases form <;> cases kind <;> first | rfl | cases ended

/-- Following a form stops at the first token that does not fit. -/
theorem check_of_follows
    (listener : Listener σ)
    (opClass : OpClass)
    {form : Form}
    {pattern : List Terminal}
    {build : List UInt32 → Option Instruction}
    (follows : form.Follows pattern build)
    (parser : Parser σ)
    {operands : List Token}
    {terminator : Token}
    (inner : ∀ token ∈ operands, token.kind.isLineEnd = false)
    (ended : terminator.kind.isLineEnd = true)
    (ahead : parser.scanner.Ahead (operands ++ [terminator])) :
    CheckOutcome listener opClass build operands terminator parser
      (parser.check listener opClass form)
      (firstMismatch? pattern (operands ++ [terminator])) := by
  induction follows generalizing parser operands with
  | place form inside behind inductionHypothesis =>
      have admitted :=
        Form.admits_place inside parser.scanner.next.1.kind
      rw [check_of_place listener opClass inside, pull_eq]
      cases operands with
      | nil =>
          obtain ⟨rfl, -⟩ := ahead
          have stuck := behind?_of_ended form ended
          rw [stuck] at admitted
          simp only [List.nil_append, firstMismatch?, admitted, stuck,
            Option.isSome_none, Bool.false_eq_true, ↓reduceIte]
          rfl
      | cons token rest =>
          obtain ⟨rfl, restAhead⟩ := ahead
          have restInner := (List.forall_mem_cons.mp inner).2
          cases goesOn : form.behind? parser.scanner.next.1.kind with
          | none =>
              rw [goesOn] at admitted
              simp only [List.cons_append, firstMismatch?, admitted,
                Option.isSome_none, Bool.false_eq_true, ↓reduceIte]
              rfl
          | some next =>
              rw [goesOn] at admitted
              simp only [List.cons_append, firstMismatch?, admitted,
                Option.isSome_some, ↓reduceIte]
              have restOutcome :=
                inductionHypothesis _ next goesOn
                  (parser.advance listener
                    [parser.scanner.next.1.scanned]
                    parser.scanner.next.2)
                  restInner restAhead
              exact restOutcome.prepend
  | endOfLine built =>
      rename_i instruction build
      rw [check, pull_eq]
      cases operands with
      | nil =>
          obtain ⟨rfl, -⟩ := ahead
          simp only [List.nil_append, firstMismatch?,
            Terminal.admits_endOfLine, ended, ↓reduceIte]
          exact ⟨instruction, built, rfl⟩
      | cons token rest =>
          obtain ⟨rfl, restAhead⟩ := ahead
          have refused := (List.forall_mem_cons.mp inner).1
          simp only [List.cons_append, firstMismatch?,
            Terminal.admits_endOfLine, refused, Bool.false_eq_true,
            ↓reduceIte]
          rfl

/-- A terminator begins a new line unless it is the end of the text. -/
theorem endLine_of_ended
    {terminator : TokenKind}
    (ended : terminator.isLineEnd = true)
    (parser : Parser σ) :
    parser.endLine terminator =
      { parser with
        line :=
          if terminator = .eof then parser.line else parser.line + 1 } := by
  cases terminator <;> first | rfl | cases ended

/-- Discarding a line stops behind its terminator. -/
theorem sync_of_ahead
    (listener : Listener σ)
    (parser : Parser σ)
    {discarded : List Token}
    {terminator : Token}
    (inner : ∀ token ∈ discarded, token.kind.isLineEnd = false)
    (ended : terminator.kind.isLineEnd = true)
    (pending : parser.pendingResync = true)
    (ahead : parser.scanner.Ahead (discarded ++ [terminator])) :
    parser.sync listener =
      ({ parser.advance listener
          ((discarded ++ [terminator]).flatMap
            (Token.discarded parser.line))
          (parser.scanner.skip (discarded ++ [terminator])) with
        pendingResync := false }).endLine terminator.kind := by
  induction discarded generalizing parser with
  | nil =>
      obtain ⟨rfl, -⟩ := ahead
      rw [sync, if_pos pending, pull_eq]
      simp only [ended, ↓reduceIte, List.nil_append, List.flatMap_cons,
        List.flatMap_nil, List.append_nil, Token.discarded]
      rfl
  | cons token rest inductionHypothesis =>
      obtain ⟨rfl, restAhead⟩ := ahead
      obtain ⟨first, restInner⟩ := List.forall_mem_cons.mp inner
      rw [sync, if_pos pending, pull_eq]
      simp only [first, Bool.false_eq_true, ↓reduceIte]
      have later :=
        inductionHypothesis
          (parser.advance listener
            (Token.discarded parser.line parser.scanner.next.1)
            parser.scanner.next.2)
          restInner pending restAhead
      rw [advance_advance] at later
      have skipped :
          Token.discarded parser.line parser.scanner.next.1 =
            [parser.scanner.next.1.scanned,
              .log (.skipped parser.line
                parser.scanner.next.1.kind)] := by
        simp [Token.discarded, first]
      rw [List.cons_append, List.flatMap_cons]
      refine Eq.trans ?_ later
      rw [skipped]
      rfl

/-- The state of a parser that has read a line, as the reference tells it. -/
def takeLine
    (listener : Listener σ)
    (line : TokenLine)
    (parser : Parser σ) :
    Parser σ where
  scanner := parser.scanner.skip line.tokens
  line := line.numberBehind parser.line
  pendingResync := false
  program := parser.program ++ line.instruction?.toList
  errorCount := parser.errorCount + line.error?.toList.length
  lastReported :=
    if line.error?.isSome then
      some parser.line
    else
      parser.lastReported
  sink := (line.events parser.line).foldl listener.hear parser.sink

/--
The diagnostic that a parser hands over when it finds an error or none: nothing
if its last one was for a line of the same number.
-/
def tells
    (error? : Option StatementError)
    (parser : Parser σ) :
    List Diagnostic :=
  if parser.lastReported = some parser.line then
    []
  else
    (error?.map fun error => ⟨parser.line, error⟩).toList

/--
The state of a parser that has read a line, whatever it has reported before.  It
is the one that the reference tells, except that an error may be held back.
-/
def readLine
    (listener : Listener σ)
    (line : TokenLine)
    (parser : Parser σ) :
    Parser σ :=
  let told := parser.tells line.error?
  { parser.takeLine listener line with
    errorCount := parser.errorCount + told.length
    sink :=
      (line.eventsTelling parser.line told).foldl
        listener.hear parser.sink }

/-- Where a line has no error nothing can be held back. -/
theorem readLine_of_faultless
    (listener : Listener σ)
    {line : TokenLine}
    (faultless : line.error? = none)
    (parser : Parser σ) :
    parser.readLine listener line = parser.takeLine listener line := by
  have none : parser.tells line.error? = [] := by
    rw [faultless, tells]
    split <;> rfl
  have sameEvents :
      line.eventsTelling parser.line [] = line.events parser.line := by
    cases judged : line.judge with
    | rejected error read unread =>
        rw [TokenLine.error?, judged] at faultless
        cases faultless
    | _ =>
        simp only [TokenLine.eventsTelling, judged]
  rw [readLine, none, sameEvents, takeLine, faultless]
  rfl

/-- The first error of a line is not held back. -/
theorem readLine_of_fresh
    (listener : Listener σ)
    {line : TokenLine}
    (parser : Parser σ)
    (fresh : parser.lastReported ≠ some parser.line) :
    parser.readLine listener line = parser.takeLine listener line := by
  cases judged : line.judge with
  | rejected error read unread =>
      simp [readLine, takeLine, tells, fresh, TokenLine.eventsTelling,
        TokenLine.events, TokenLine.error?, judged]
  | _ =>
      exact
        readLine_of_faultless listener
          (by rw [TokenLine.error?, judged]) parser

/-- An error is handed over, counted and kept in mind, unless it is repeated. -/
theorem report_eq
    (listener : Listener σ)
    (error : StatementError)
    (parser : Parser σ) :
    let told := parser.tells (some error)
    parser.report listener error =
      { parser.advance listener (told.map Event.report)
          parser.scanner with
        lastReported := some parser.line
        errorCount := parser.errorCount + told.length } := by
  intro told
  by_cases repeated : parser.lastReported = some parser.line
  · have none : told = [] := if_pos repeated
    rw [report, if_pos repeated, none, ← repeated]
    rfl
  · have one : told = [⟨parser.line, error⟩] := if_neg repeated
    rw [report, if_neg repeated, one]
    rfl

/-- The rest of a line in error is discarded, whether or not it is reported. -/
theorem reject_of_judge
    (listener : Listener σ)
    {line : TokenLine}
    {error : StatementError}
    {read unread : List Token}
    (rejected : line.judge = .rejected error read unread)
    (parser : Parser σ)
    (ahead : parser.scanner.Ahead line.tokens)
    (settled : parser.pendingResync = false) :
    (parser.advance listener (read.map Token.scanned)
        (parser.scanner.skip read)).reject listener error =
      parser.readLine listener line := by
  obtain ⟨split, -⟩ := TokenLine.rejected_split rejected
  have reported :
      (parser.advance listener (read.map Token.scanned)
          (parser.scanner.skip read)).report listener error =
        { parser.advance listener
            (read.map Token.scanned ++
              (parser.tells (some error)).map Event.report)
            (parser.scanner.skip read) with
          lastReported := some parser.line
          errorCount :=
            parser.errorCount +
              (parser.tells (some error)).length } := by
    rw [report_eq, advance_advance]
    rfl
  have taken :
      parser.readLine listener line =
        { parser.advance listener
            (read.map Token.scanned ++
              (parser.tells (some error)).map Event.report ++
                unread.flatMap (Token.discarded parser.line))
            (parser.scanner.skip (read ++ unread)) with
          line := line.numberBehind parser.line
          pendingResync := false
          lastReported := some parser.line
          errorCount :=
            parser.errorCount +
              (parser.tells (some error)).length } := by
    simp [readLine, takeLine, TokenLine.instruction?, TokenLine.error?,
      TokenLine.eventsTelling, rejected, split, advance]
  rw [taken, reject, reported]
  rcases TokenLine.rejected_cases rejected with
      ⟨rfl, endsLine⟩ | ⟨inLine, discarded, rfl, inner⟩
  · simp only [endsLine, line.ended, ↓reduceIte]
    rw [endLine_of_ended line.ended]
    simp [advance, settled, TokenLine.numberBehind]
  · rw [← split, Scanner.ahead_append] at ahead
    simp only [inLine, Bool.false_eq_true, ↓reduceIte]
    rw [sync_of_ahead listener _ inner line.ended rfl ahead.2,
      endLine_of_ended line.ended]
    simp [advance, TokenLine.numberBehind]

/-- An accepted statement is committed behind the end of its line. -/
theorem commit_of_judge
    (listener : Listener σ)
    {line : TokenLine}
    {instruction : Instruction}
    (accepted : line.judge = .accepted instruction)
    (parser : Parser σ)
    (settled : parser.pendingResync = false) :
    ((parser.advance listener (line.tokens.map Token.scanned)
        (parser.scanner.skip line.tokens)).endLine
          line.terminator.kind).commit listener instruction =
      parser.takeLine listener line := by
  rw [endLine_of_ended line.ended]
  simp [commit, emit, advance, takeLine, settled, accepted,
    TokenLine.instruction?, TokenLine.error?, TokenLine.events,
    TokenLine.numberBehind]

/-- A line without a statement only moves the parser on. -/
theorem endLine_of_blank
    (listener : Listener σ)
    {line : TokenLine}
    (blank : line.body = [])
    (parser : Parser σ)
    (settled : parser.pendingResync = false) :
    (parser.advance listener [line.terminator.scanned]
        (parser.scanner.skip line.tokens)).endLine
          line.terminator.kind =
      parser.takeLine listener line := by
  have judged : line.judge = .blank := by
    rw [TokenLine.judge, blank]
  rw [endLine_of_ended line.ended]
  simp [advance, takeLine, settled, judged, TokenLine.instruction?,
    TokenLine.error?, TokenLine.events, TokenLine.numberBehind,
    TokenLine.tokens, blank]

/-- A statement is settled as the reference judges its line. -/
theorem settle_of_opcode
    (listener : Listener σ)
    {line : TokenLine}
    {first : Token}
    {operands : List Token}
    {opcode : Opcode}
    (bodyShape : line.body = first :: operands)
    (isOpcode : first.kind = .opcode opcode)
    (parser : Parser σ)
    (ahead : parser.scanner.Ahead line.tokens)
    (settled : parser.pendingResync = false) :
    let behind :=
      parser.advance listener [first.scanned] parser.scanner.next.2
    let checked := behind.check listener opcode.opClass opcode.form
    checked.2.settle listener checked.1 =
      parser.readLine listener line := by
  intro behind checked
  have tokensShape := TokenLine.tokens_of_cons bodyShape
  have lineAhead := ahead
  rw [tokensShape] at lineAhead
  have inner := line.inner
  rw [bodyShape] at inner
  have outcome :=
    check_of_follows listener opcode.opClass opcode.form_follows behind
      (List.forall_mem_cons.mp inner).2 line.ended lineAhead.2
  cases compared :
      firstMismatch? opcode.opClass.pattern
        (operands ++ [line.terminator]) with
  | some mismatch =>
      rw [compared] at outcome
      have rejected :
          line.judge =
            .rejected
              (.mismatch opcode.opClass mismatch.expected
                mismatch.found.kind)
              (first :: mismatch.read) mismatch.unread := by
        rw [TokenLine.judge, bodyShape]
        simp only [isOpcode, compared]
      rw [show checked = _ from outcome,
        ← reject_of_judge listener rejected parser ahead settled]
      dsimp only [behind]
      rw [advance_advance]
      rfl
  | none =>
      rw [compared] at outcome
      obtain ⟨instruction, built, checkedShape⟩ := outcome
      have accepted : line.judge = .accepted instruction := by
        rw [TokenLine.judge, bodyShape]
        simp only [isOpcode, compared, built]
      have faultless : line.error? = none := by
        rw [TokenLine.error?, accepted]
      rw [show checked = _ from checkedShape,
        readLine_of_faultless listener faultless,
        ← commit_of_judge listener accepted parser settled, tokensShape]
      dsimp only [behind]
      rw [advance_advance]
      rfl

/-- A turn reads an empty line, and is the last one if that is the end. -/
theorem step_of_emptyLine
    (listener : Listener σ)
    {line : TokenLine}
    (parser : Parser σ)
    (ahead : parser.scanner.Ahead line.tokens)
    (settled : parser.pendingResync = false)
    (empty : line.body = []) :
    parser.step listener =
      if line.terminator.kind = .eof then
        .done (parser.readLine listener line)
      else
        .again (parser.readLine listener line) := by
  have faultless : line.error? = none := by
    rw [TokenLine.error?, TokenLine.judge, empty]
  have taken := endLine_of_blank listener empty parser settled
  rw [← readLine_of_faultless listener faultless] at taken
  have ended := line.ended
  rw [TokenLine.tokens_of_nil empty] at ahead taken
  rw [step, pull_eq, ahead.1]
  cases kind : line.terminator.kind with
  | eof =>
      rw [kind] at taken
      rw [if_pos rfl, ← taken]
      rfl
  | newLine =>
      rw [kind] at taken
      rw [if_neg (by simp), ← taken]
      rfl
  | comment =>
      rw [kind] at taken
      rw [if_neg (by simp), ← taken]
      rfl
  | _ =>
      rw [kind] at ended
      cases ended

/-- A turn reads a line that holds a statement or begins like none. -/
theorem step_of_statement
    (listener : Listener σ)
    {line : TokenLine}
    {first : Token}
    {operands : List Token}
    (parser : Parser σ)
    (ahead : parser.scanner.Ahead line.tokens)
    (settled : parser.pendingResync = false)
    (bodyShape : line.body = first :: operands) :
    parser.step listener = .again (parser.readLine listener line) := by
  have inner := line.inner first (by simp [bodyShape])
  have lineAhead := ahead
  rw [TokenLine.tokens_of_cons bodyShape] at lineAhead
  rw [step, pull_eq, lineAhead.1]
  cases kind : first.kind with
  | opcode opcode =>
      have taken :=
        settle_of_opcode listener bodyShape kind parser ahead settled
      exact congrArg Turn.again taken
  | eof =>
      rw [kind] at inner
      cases inner
  | newLine =>
      rw [kind] at inner
      cases inner
  | comment =>
      rw [kind] at inner
      cases inner
  | _ =>
      have rejected :
          line.judge =
            .rejected (.notAnOpcode first.kind) [first]
              (operands ++ [line.terminator]) := by
        rw [TokenLine.judge, bodyShape]
        simp only [kind]
      rw [kind] at rejected
      have taken :=
        reject_of_judge listener rejected parser ahead settled
      exact congrArg Turn.again taken

/--
One turn of a parser between two lines reads the line ahead.  It is the last
turn if it reads nothing but the end.
-/
theorem step_eq_readLine
    (listener : Listener σ)
    {line : TokenLine}
    (parser : Parser σ)
    (ahead : parser.scanner.Ahead line.tokens)
    (settled : parser.pendingResync = false) :
    parser.step listener =
      if line.body = [] ∧ line.terminator.kind = .eof then
        .done (parser.readLine listener line)
      else
        .again (parser.readLine listener line) := by
  cases bodyShape : line.body with
  | nil =>
      rw [step_of_emptyLine listener parser ahead settled bodyShape]
      simp only [true_and]
  | cons first operands =>
      rw [if_neg (by simp)]
      exact step_of_statement listener parser ahead settled bodyShape

/--
A turn does what the reference says if no error of the line ahead has been
reported before.
-/
theorem step_of_line
    (listener : Listener σ)
    {line : TokenLine}
    (parser : Parser σ)
    (ahead : parser.scanner.Ahead line.tokens)
    (settled : parser.pendingResync = false)
    (fresh : line.body ≠ [] → parser.lastReported ≠ some parser.line) :
    parser.step listener =
      if line.body = [] ∧ line.terminator.kind = .eof then
        .done (parser.takeLine listener line)
      else
        .again (parser.takeLine listener line) := by
  have taken :
      parser.readLine listener line = parser.takeLine listener line := by
    by_cases empty : line.body = []
    · apply readLine_of_faultless
      rw [TokenLine.error?, TokenLine.judge, empty]
    · exact readLine_of_fresh listener parser (fresh empty)
  rw [step_eq_readLine listener parser ahead settled, taken]

/-- A parse goes on after every turn but the last. -/
theorem run_of_again
    {listener : Listener σ}
    {parser later : Parser σ}
    (turn : parser.step listener = .again later) :
    parser.run listener = later.run listener := by
  rw [run]
  split <;> rename_i shape <;> rw [turn] at shape <;> cases shape
  rfl

/-- A parse ends with its last turn. -/
theorem run_of_done
    {listener : Listener σ}
    {parser later : Parser σ}
    (turn : parser.step listener = .done later) :
    parser.run listener = later := by
  rw [run]
  split <;> rename_i shape <;> rw [turn] at shape <;> cases shape
  rfl

end Parser

end Iloc
