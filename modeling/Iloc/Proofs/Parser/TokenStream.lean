import Iloc.Proofs.Parser.Simulation
import Iloc.Proofs.Scanner.Pulling

namespace Iloc

/-!
# The parser and the stream of tokens

The parser knows its text only through the tokens that its scanner reads.  Two
parsers that differ in nothing but their scanners, and whose scanners have the
same tokens ahead, therefore stay alike whatever they do.  So texts with the
same tokens are parsed alike, however many lines they have.
-/

universe u

namespace Scanner

variable {first second : Scanner}

/-- Scanners with the same tokens ahead read the same token. -/
theorem next_eq_of_tokens_eq
    (same : first.tokens = second.tokens) :
    first.next.1 = second.next.1 := by
  rw [← tokenAt_tokens_zero, same, tokenAt_tokens_zero]

/-- Behind the same token they have the same tokens ahead. -/
theorem tokens_next_of_tokens_eq
    (same : first.tokens = second.tokens) :
    first.next.2.tokens = second.next.2.tokens := by
  have sameNext := next_eq_of_tokens_eq same
  by_cases atEnd : first.next.1.kind = .eof
  · have secondAtEnd : second.AtEnd := by
      rw [AtEnd, ← sameNext, atEnd]
    have sameEnd := sameNext
    rw [next_of_atEnd atEnd, next_of_atEnd secondAtEnd] at sameEnd
    rw [tokens_of_atEnd (atEnd_next atEnd),
      tokens_of_atEnd (atEnd_next secondAtEnd),
      line_next_of_atEnd atEnd, line_next_of_atEnd secondAtEnd, sameEnd]
  · have secondInner : second.next.1.kind ≠ .eof := by
      rw [← sameNext]
      exact atEnd
    rw [tokens_of_ne_eof atEnd, tokens_of_ne_eof secondInner] at same
    exact (List.cons.inj same).2

end Scanner

namespace Parser

variable {σ : Type u}

/-- A parser that reads from another scanner. -/
def withScanner
    (scanner : Scanner)
    (parser : Parser σ) :
    Parser σ :=
  { parser with scanner := scanner }

/-- Parsers that differ at most in scanners with the same tokens ahead. -/
def Alike (first second : Parser σ) : Prop :=
  ∃ scanner,
    first.scanner.tokens = scanner.tokens ∧
      second = first.withScanner scanner

/-- Turns that leave parsers alike and are both the last one or not. -/
inductive Turn.Alike : Turn σ → Turn σ → Prop where
  | again
      {first second : Parser σ}
      (alike : first.Alike second) :
      Turn.Alike (.again first) (.again second)
  | done
      {first second : Parser σ}
      (alike : first.Alike second) :
      Turn.Alike (.done first) (.done second)

namespace Alike

variable {first second : Parser σ}

/-- What does not touch the scanner keeps parsers alike. -/
theorem map
    (alike : first.Alike second)
    {change : Parser σ → Parser σ}
    (keeps : ∀ parser, (change parser).scanner = parser.scanner)
    (blind :
      ∀ parser scanner,
        change (parser.withScanner scanner) =
          (change parser).withScanner scanner) :
    (change first).Alike (change second) := by
  obtain ⟨scanner, same, rfl⟩ := alike
  refine ⟨scanner, ?_, blind first scanner⟩
  rw [keeps]
  exact same

theorem endLine
    (alike : first.Alike second)
    (terminator : TokenKind) :
    (first.endLine terminator).Alike (second.endLine terminator) := by
  apply alike.map (scanner_endLine terminator)
  intro parser scanner
  cases terminator <;> rfl

theorem emit
    (alike : first.Alike second)
    (listener : Listener σ)
    (event : Event) :
    (first.emit listener event).Alike (second.emit listener event) :=
  alike.map (fun _ => rfl) (fun _ _ => rfl)

theorem commit
    (alike : first.Alike second)
    (listener : Listener σ)
    (instruction : Instruction) :
    (first.commit listener instruction).Alike
      (second.commit listener instruction) :=
  alike.map (fun _ => rfl) (fun _ _ => rfl)

theorem report
    (alike : first.Alike second)
    (listener : Listener σ)
    (error : StatementError) :
    (first.report listener error).Alike
      (second.report listener error) := by
  apply alike.map (scanner_report listener error)
  intro parser scanner
  unfold Parser.report
  rw [apply_ite (withScanner scanner)]
  rfl

theorem setPending
    (alike : first.Alike second)
    (pending : Bool) :
    Alike { first with pendingResync := pending }
      { second with pendingResync := pending } := by
  obtain ⟨scanner, same, rfl⟩ := alike
  exact ⟨scanner, same, rfl⟩

theorem line_eq
    (alike : first.Alike second) :
    first.line = second.line := by
  obtain ⟨scanner, same, rfl⟩ := alike
  rfl

theorem pendingResync_eq
    (alike : first.Alike second) :
    first.pendingResync = second.pendingResync := by
  obtain ⟨scanner, same, rfl⟩ := alike
  rfl

/-- Alike parsers read the same token. -/
theorem pull
    (alike : first.Alike second)
    (listener : Listener σ) :
    (first.pull listener).1 = (second.pull listener).1 ∧
      (first.pull listener).2.Alike (second.pull listener).2 := by
  obtain ⟨scanner, same, rfl⟩ := alike
  have sameNext := Scanner.next_eq_of_tokens_eq same
  have sameBehind := Scanner.tokens_next_of_tokens_eq same
  rw [pull_eq, pull_eq, sameNext]
  exact ⟨rfl, scanner.next.2, sameBehind, rfl⟩

/-- Alike parsers follow a form to the same outcome. -/
theorem check
    {form : Form}
    {pattern : List Terminal}
    {build : List UInt32 → Option Instruction}
    (follows : form.Follows pattern build)
    (alike : first.Alike second)
    (listener : Listener σ)
    (opClass : OpClass) :
    (first.check listener opClass form).1 =
        (second.check listener opClass form).1 ∧
      (first.check listener opClass form).2.Alike
        (second.check listener opClass form).2 := by
  induction follows generalizing first second with
  | place form inside behind inductionHypothesis =>
      obtain ⟨sameKind, alikeBehind⟩ := alike.pull listener
      rw [check_of_place listener opClass inside,
        check_of_place listener opClass inside, ← sameKind]
      cases goesOn : form.behind? (first.pull listener).1 with
      | none =>
          exact ⟨rfl, alikeBehind⟩
      | some next =>
          exact inductionHypothesis _ next goesOn alikeBehind
  | endOfLine built =>
      obtain ⟨sameKind, alikeBehind⟩ := alike.pull listener
      rw [Parser.check, Parser.check]
      dsimp only
      rw [← sameKind]
      split
      · exact ⟨rfl, alikeBehind.endLine _⟩
      · exact ⟨rfl, alikeBehind⟩

/-- Alike parsers discard the same rest of a line. -/
theorem sync
    (alike : first.Alike second)
    (listener : Listener σ) :
    (first.sync listener).Alike (second.sync listener) := by
  revert second
  fun_induction Parser.sync listener first with
  | case1 parser pending found later =>
      rename_i ended
      intro second alike
      obtain ⟨sameKind, alikeBehind⟩ := alike.pull listener
      rw [alike.pendingResync_eq] at pending
      rw [Parser.sync, if_pos pending]
      dsimp only
      rw [← sameKind, if_pos ended]
      exact (alikeBehind.setPending false).endLine _
  | case2 parser pending found later inner =>
      rename_i inductionHypothesis
      intro second alike
      obtain ⟨sameKind, alikeBehind⟩ := alike.pull listener
      rw [alike.pendingResync_eq] at pending
      have goesOn :
          second.sync listener =
            ((second.pull listener).2.emit listener
              (.log (.skipped later.line found))).sync listener := by
        rw [Parser.sync, if_pos pending]
        dsimp only
        rw [← sameKind, if_neg inner, ← alikeBehind.line_eq]
      rw [goesOn]
      exact inductionHypothesis (alikeBehind.emit listener _)
  | case3 parser settled =>
      intro second alike
      rw [alike.pendingResync_eq] at settled
      rw [Parser.sync, if_neg settled]
      exact alike

/-- Alike parsers reject a statement alike. -/
theorem reject
    (alike : first.Alike second)
    (listener : Listener σ)
    (error : StatementError) :
    (first.reject listener error).Alike
      (second.reject listener error) := by
  have reported := alike.report listener error
  rw [Parser.reject, Parser.reject]
  split
  · exact reported.endLine _
  · exact (reported.setPending true).sync listener

/-- Alike parsers settle a statement alike. -/
theorem settle
    (alike : first.Alike second)
    (listener : Listener σ)
    (outcome : Except StatementError Instruction) :
    (first.settle listener outcome).Alike
      (second.settle listener outcome) := by
  cases outcome with
  | ok instruction => exact alike.commit listener instruction
  | error error => exact alike.reject listener error

/-- Alike parsers take the same turn. -/
theorem step
    (alike : first.Alike second)
    (listener : Listener σ) :
    Turn.Alike (first.step listener) (second.step listener) := by
  obtain ⟨sameKind, alikeBehind⟩ := alike.pull listener
  rw [Parser.step, Parser.step]
  generalize first.pull listener = pulled at sameKind alikeBehind
  generalize second.pull listener = other at sameKind alikeBehind
  obtain ⟨kind, behind⟩ := pulled
  obtain ⟨_, otherBehind⟩ := other
  obtain rfl := sameKind
  cases kind with
  | eof =>
      exact .done alikeBehind
  | newLine =>
      exact .again (alikeBehind.endLine _)
  | comment =>
      exact .again (alikeBehind.endLine _)
  | opcode opcode =>
      obtain ⟨sameOutcome, alikeChecked⟩ :=
        alikeBehind.check opcode.form_follows listener opcode.opClass
      dsimp only
      rw [← sameOutcome]
      exact .again (alikeChecked.settle listener _)
  | _ =>
      exact .again (alikeBehind.settle listener _)

/-- Alike parsers come to the same end. -/
theorem run
    (alike : first.Alike second)
    (listener : Listener σ) :
    (first.run listener).Alike (second.run listener) := by
  induction size : first.remaining using Nat.strongRecOn
    generalizing first second with
  | ind size inductionHypothesis =>
      have turn := alike.step listener
      generalize firstTurn : first.step listener = taken at turn
      generalize secondTurn : second.step listener = other at turn
      cases turn with
      | again alikeLater =>
          have shorter := remaining_step_lt firstTurn
          rw [size] at shorter
          rw [run_of_again firstTurn, run_of_again secondTurn]
          exact inductionHypothesis _ shorter alikeLater rfl
      | done alikeLast =>
          rw [run_of_done firstTurn, run_of_done secondTurn]
          exact alikeLast

end Alike

end Parser

/-- Texts with the same tokens are parsed alike, whatever listens. -/
theorem parse_eq_of_scan_eq
    {σ : Type u}
    {source other : String}
    (sameTokens : scan source = scan other)
    (listener : Listener σ)
    (sink : σ) :
    parse listener sink source = parse listener sink other := by
  have start :
      (Parser.ofSource source sink).Alike (Parser.ofSource other sink) :=
    ⟨Scanner.ofSource other, sameTokens, rfl⟩
  obtain ⟨scanner, -, ended⟩ := start.run listener
  rw [parse, parse, ended]
  rfl

end Iloc
