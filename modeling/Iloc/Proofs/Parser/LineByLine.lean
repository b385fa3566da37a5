import Iloc.Proofs.Parser.Turns

namespace Iloc

/-!
# Parsing line by line

A parse finds what the judgements on the lines of tokens say, taken together:
the instructions of the accepted lines in order, and for every rejected line
one diagnostic with the number of the line.  Where a line stands among the
others has no influence on its judgement.
-/

universe u

namespace TokenLine

/-- The instructions of the accepted lines. -/
def program (lines : List TokenLine) : Program :=
  (lines.filterMap instruction?).toArray

/-- The diagnostics of the rejected lines, numbered from a given number on. -/
def diagnosticsFrom
    (number : Nat)
    (lines : List TokenLine) :
    List Diagnostic :=
  (lines.zipIdx number).filterMap fun (line, number) =>
    line.error?.map fun error => ⟨UInt32.ofNat number, error⟩

/-- The diagnostics of the rejected lines of a text. -/
def diagnostics (lines : List TokenLine) : Array Diagnostic :=
  (diagnosticsFrom 1 lines).toArray

/-- The events of reading lines, numbered from a given number on. -/
def eventsFrom
    (number : Nat)
    (lines : List TokenLine) :
    List Event :=
  (lines.zipIdx number).flatMap fun (line, number) =>
    line.events (UInt32.ofNat number)

/--
The token that ends a line, unless the line holds nothing else.  If it is the
end of the text, then it is left to be read once more.
-/
def leftOver? (line : TokenLine) : Option Token :=
  if line.body = [] then none else some line.terminator

variable {line : TokenLine}

theorem eventsFrom_cons
    (number : Nat)
    (line : TokenLine)
    (lines : List TokenLine) :
    eventsFrom number (line :: lines) =
      line.events (UInt32.ofNat number) ++
        eventsFrom (number + 1) lines := by
  rw [eventsFrom, List.zipIdx_cons, List.flatMap_cons]
  rfl

theorem diagnosticsFrom_cons
    (number : Nat)
    (line : TokenLine)
    (lines : List TokenLine) :
    diagnosticsFrom number (line :: lines) =
      (line.error?.map fun error =>
          ⟨UInt32.ofNat number, error⟩).toList ++
        diagnosticsFrom (number + 1) lines := by
  simp only [diagnosticsFrom, List.zipIdx_cons, List.filterMap_cons]
  cases line.error? <;> simp

/-- The diagnostics of lines are among their events. -/
theorem filterMap_diagnostic?_eventsFrom
    (number : Nat)
    (lines : List TokenLine) :
    (eventsFrom number lines).filterMap Event.diagnostic? =
      diagnosticsFrom number lines := by
  induction lines generalizing number with
  | nil =>
      rfl
  | cons line lines inductionHypothesis =>
      rw [eventsFrom_cons, List.filterMap_append, inductionHypothesis,
        diagnosticsFrom_cons, line.filterMap_diagnostic?_events]

theorem length_diagnosticsFrom
    (number : Nat)
    (lines : List TokenLine) :
    (diagnosticsFrom number lines).length =
      (lines.filterMap error?).length := by
  induction lines generalizing number with
  | nil =>
      rfl
  | cons line lines inductionHypothesis =>
      rw [diagnosticsFrom_cons, List.length_append, inductionHypothesis]
      cases found : line.error? with
      | none =>
          simp [found]
      | some error =>
          simp [found, Nat.add_comm]

/-- The diagnostics of successive lines are numbered in ascending order. -/
theorem ascending_diagnosticsFrom
    (number : Nat)
    (lines : List TokenLine)
    (small : number + lines.length ≤ UInt32.size) :
    (diagnosticsFrom number lines).Pairwise (·.line < ·.line) ∧
      ∀ diagnostic ∈ diagnosticsFrom number lines,
        number ≤ diagnostic.line.toNat := by
  induction lines generalizing number with
  | nil =>
      exact ⟨List.Pairwise.nil, List.forall_mem_nil _⟩
  | cons line lines inductionHypothesis =>
      rw [List.length_cons] at small
      obtain ⟨ascending, behind⟩ :=
        inductionHypothesis (number + 1) (by omega)
      rw [diagnosticsFrom_cons]
      cases line.error? with
      | none =>
          refine ⟨ascending, ?_⟩
          intro diagnostic member
          exact Nat.le_of_succ_le (behind diagnostic member)
      | some error =>
          have exactNumber : (UInt32.ofNat number).toNat = number :=
            UInt32.toNat_ofNat_of_lt (by omega)
          constructor
          · refine List.Pairwise.cons ?_ ascending
            intro later member
            have isLater := behind later member
            rw [UInt32.lt_iff_toNat_lt]
            show (UInt32.ofNat number).toNat < later.line.toNat
            omega
          · intro diagnostic member
            rcases List.mem_cons.mp member with rfl | inTail
            · exact Nat.le_of_eq exactNumber.symm
            · exact Nat.le_of_succ_le (behind diagnostic inTail)

theorem judge_of_isEnd
    (isEnd : line.IsEnd) :
    line.judge = .blank := by
  rw [judge, isEnd.1]

end TokenLine

/-- Every text has a line. -/
theorem TokenLine.exists_cons_cut
    (scanner : Scanner) :
    ∃ line lines, cut scanner.tokens = line :: lines := by
  obtain ⟨line, reads⟩ := scanner.exists_readsLine
  rw [reads.cut_eq]
  split
  · exact ⟨line, [], rfl⟩
  · exact ⟨line, _, rfl⟩

namespace Scanner.Turns

variable {scanner : Scanner} {lines : List TokenLine}

/-- The turns of a parse find the instructions of the lines of its text. -/
theorem program_eq
    (turns : scanner.Turns lines) :
    lines.filterMap TokenLine.instruction? =
      (TokenLine.cut scanner.tokens).filterMap
        TokenLine.instruction? := by
  obtain ⟨extra, shape, -, allEnd⟩ := turns.cut_eq
  have none : extra.filterMap TokenLine.instruction? = [] := by
    rw [List.filterMap_eq_nil_iff]
    intro line member
    rw [TokenLine.instruction?,
      TokenLine.judge_of_isEnd (allEnd line member)]
  rw [shape, List.filterMap_append, none, List.append_nil]

/-- The turns of a parse find the errors of the lines of its text. -/
theorem errors_eq
    (turns : scanner.Turns lines) :
    lines.filterMap TokenLine.error? =
      (TokenLine.cut scanner.tokens).filterMap TokenLine.error? := by
  obtain ⟨extra, shape, -, allEnd⟩ := turns.cut_eq
  have none : extra.filterMap TokenLine.error? = [] := by
    rw [List.filterMap_eq_nil_iff]
    intro line member
    rw [TokenLine.error?,
      TokenLine.judge_of_isEnd (allEnd line member)]
  rw [shape, List.filterMap_append, none, List.append_nil]

/-- At the end of the text nothing but the end makes itself known. -/
theorem history_of_atEnd
    (turns : scanner.Turns lines)
    (atEnd : scanner.AtEnd)
    (number : UInt32) :
    TokenLine.history number lines =
      [Token.scanned ⟨.eof, scanner.line⟩] := by
  obtain ⟨line, rfl, isEnd⟩ := turns.of_atEnd atEnd
  have ahead := turns.ahead
  rw [List.flatMap_singleton, TokenLine.tokens_of_nil isEnd.1] at ahead
  rw [TokenLine.history, TokenLine.history, TokenLine.events,
    TokenLine.judge_of_isEnd isEnd, TokenLine.tokens_of_nil isEnd.1,
    ← ahead.1, next_of_atEnd atEnd]
  rfl

/--
The turns of a parse make known what the lines of its text do, each with a
number that counts the lines up to it.  If the text ends in a line that holds
something, then its end is read once more.
-/
theorem history_eq
    (turns : scanner.Turns lines)
    (number : Nat) :
    TokenLine.history (UInt32.ofNat number) lines =
      TokenLine.eventsFrom number (TokenLine.cut scanner.tokens) ++
        ((TokenLine.cut scanner.tokens).getLast?.bind
          TokenLine.leftOver?).toList.map Token.scanned := by
  induction turns generalizing number with
  | @last scanner line reads isEnd =>
      rw [reads.cut_eq, if_pos isEnd.2, TokenLine.history,
        TokenLine.history, TokenLine.eventsFrom_cons]
      simp [TokenLine.eventsFrom, TokenLine.leftOver?, isEnd.1]
  | @turn scanner line lines reads goesOn later inductionHypothesis =>
      rw [reads.cut_eq, TokenLine.history, TokenLine.numberBehind]
      by_cases atEnd : line.terminator.kind = .eof
      · have statement : line.body ≠ [] := by
          intro empty
          exact goesOn ⟨empty, atEnd⟩
        have behindAtEnd := reads.atEnd_skip atEnd
        rw [if_pos atEnd, if_pos atEnd, later.history_of_atEnd behindAtEnd,
          ← reads.terminator_of_atEnd atEnd, TokenLine.eventsFrom_cons]
        simp [TokenLine.eventsFrom, TokenLine.leftOver?, statement]
      · have behind := inductionHypothesis (number + 1)
        rw [UInt32.ofNat_add] at behind
        obtain ⟨next, rest, restCut⟩ :=
          TokenLine.exists_cons_cut (scanner.skip line.tokens)
        rw [restCut] at behind
        rw [if_neg atEnd, if_neg atEnd, restCut,
          TokenLine.eventsFrom_cons, List.getLast?_cons_cons,
          List.append_assoc, ← behind]
        rfl

/--
The turns of a parse report every error with the number of its line, which
counts the lines up to it.
-/
theorem diagnostics_eq
    (turns : scanner.Turns lines)
    (number : Nat) :
    (TokenLine.history (UInt32.ofNat number) lines).filterMap
        Event.diagnostic? =
      TokenLine.diagnosticsFrom number
        (TokenLine.cut scanner.tokens) := by
  have silent :=
    List.filterMap_eq_nil_iff.mpr
      (Token.silent_scanned
        ((TokenLine.cut scanner.tokens).getLast?.bind
          TokenLine.leftOver?).toList)
  rw [turns.history_eq, List.filterMap_append, silent, List.append_nil,
    TokenLine.filterMap_diagnostic?_eventsFrom]

/-- Every line but the last begins another one. -/
theorem length_cut_le
    (turns : scanner.Turns lines) :
    (TokenLine.cut scanner.tokens).length ≤
      (lines.flatMap TokenLine.tokens).countP Token.beginsLine + 1 := by
  induction turns with
  | last reads isEnd =>
      rw [reads.cut_eq, if_pos isEnd.2]
      exact Nat.le_add_left _ _
  | @turn scanner line lines reads goesOn later inductionHypothesis =>
      rw [reads.cut_eq, List.flatMap_cons, List.countP_append,
        line.countP_beginsLine]
      by_cases atEnd : line.terminator.kind = .eof
      · rw [if_pos atEnd]
        exact Nat.le_add_left _ _
      · rw [if_neg atEnd, if_neg atEnd, List.length_cons]
        omega

end Scanner.Turns

/-- The lines of a text hold all of its tokens. -/
theorem TokenLine.flatMap_tokens_cut
    (scanner : Scanner) :
    (cut scanner.tokens).flatMap tokens = scanner.tokens := by
  induction scanner using Scanner.induction_next with
  | ended scanner isEnd =>
      rw [Scanner.tokens_of_eof isEnd, cut_cons_of_ended (by rw [isEnd]; rfl)]
      rfl
  | inner scanner inner inductionHypothesis =>
      rw [Scanner.tokens_of_ne_eof inner]
      cases ended : scanner.next.1.kind.isLineEnd with
      | true =>
          rw [cut_cons_of_ended ended, List.flatMap_cons,
            inductionHypothesis]
          rfl
      | false =>
          obtain ⟨line, lines, restCut⟩ := exists_cons_cut scanner.next.2
          rw [restCut, List.flatMap_cons] at inductionHypothesis
          rw [cut_cons_of_inner ended restCut, List.flatMap_cons,
            tokens_prepend, List.cons_append, inductionHypothesis]

/-- A form that takes all of its line has an instruction for the operands. -/
theorem Form.Follows.exists_instruction
    {form : Form}
    {pattern : List Terminal}
    {build : List UInt32 → Option Instruction}
    (follows : form.Follows pattern build)
    {operands : List Token}
    {terminator : Token}
    (inner : ∀ token ∈ operands, token.kind.isLineEnd = false)
    (ended : terminator.kind.isLineEnd = true)
    (fits : firstMismatch? pattern (operands ++ [terminator]) = none) :
    ∃ instruction,
      build (operands.filterMap (·.kind.operand?)) = some instruction := by
  induction follows generalizing operands with
  | place form inside behind inductionHypothesis =>
      cases operands with
      | nil =>
          have admitted := Form.admits_place inside terminator.kind
          rw [Parser.behind?_of_ended form ended] at admitted
          simp [firstMismatch?, admitted] at fits
      | cons token rest =>
          have restInner := (List.forall_mem_cons.mp inner).2
          have admitted := Form.admits_place inside token.kind
          cases goesOn : form.behind? token.kind with
          | none =>
              rw [goesOn] at admitted
              simp [firstMismatch?, admitted] at fits
          | some next =>
              rw [goesOn] at admitted
              simp only [List.cons_append, firstMismatch?, admitted,
                Option.isSome_some, ↓reduceIte,
                Option.map_eq_none_iff] at fits
              obtain ⟨instruction, built⟩ :=
                inductionHypothesis token.kind next goesOn restInner fits
              refine ⟨instruction, ?_⟩
              rw [← built, List.filterMap_cons]
              cases token.kind.operand? <;> rfl
  | endOfLine built =>
      cases operands with
      | nil =>
          exact ⟨_, built⟩
      | cons token rest =>
          have refused := (List.forall_mem_cons.mp inner).1
          simp [firstMismatch?, Terminal.admits_endOfLine, refused] at fits

/-- Every line that holds anything is either accepted or rejected. -/
theorem TokenLine.judge_eq_blank_iff
    (line : TokenLine) :
    line.judge = .blank ↔ line.body = [] := by
  constructor
  · intro blank
    have inner := line.inner
    rw [judge] at blank
    split at blank
    · assumption
    · rename_i first operands bodyShape
      rw [bodyShape] at inner
      dsimp only at blank
      split at blank
      · rename_i opcode isOpcode
        split at blank
        · cases blank
        · rename_i fits
          obtain ⟨instruction, built⟩ :=
            opcode.form_follows.exists_instruction
              (List.forall_mem_cons.mp inner).2 line.ended fits
          rw [built] at blank
          cases blank
      · cases blank
  · intro empty
    rw [judge, empty]

namespace Parser

variable {source : String}

/-- A parse takes the turns that its text has. -/
theorem exists_run_ofSource
    (small : source.toList.count '\n' + 3 ≤ UInt32.size) :
    ∃ lines,
      (Scanner.ofSource source).Turns lines ∧
        ∀ {σ : Type u} (listener : Listener σ) (sink : σ),
          (ofSource source sink).run listener =
            (ofSource source sink).takeLines listener lines := by
  obtain ⟨lines, turns⟩ := (Scanner.ofSource source).exists_turns
  refine ⟨lines, turns, ?_⟩
  intro σ listener sink
  exact (InStep.ofSource source sink).run_eq turns small listener

end Parser

section parse

variable {σ : Type u} {source : String}

section run

variable {lines : List TokenLine}

/-- A parse that takes its lines in turn reports what they come to. -/
theorem report_of_run
    {listener : Listener σ}
    {sink : σ}
    (turns : (Scanner.ofSource source).Turns lines)
    (run :
      (Parser.ofSource source sink).run listener =
        (Parser.ofSource source sink).takeLines listener lines) :
    (parse listener sink source).1 =
      ⟨TokenLine.program (TokenLine.cut (scan source)),
        (TokenLine.diagnostics (TokenLine.cut (scan source))).size⟩ := by
  have program :
      ((Parser.ofSource source sink).takeLines listener lines).program =
        TokenLine.program (TokenLine.cut (scan source)) := by
    apply Array.toList_inj.mp
    rw [Parser.program_takeLines, turns.program_eq]
    rfl
  have errorCount :
      ((Parser.ofSource source sink).takeLines
          listener lines).errorCount =
        (TokenLine.diagnostics
          (TokenLine.cut (scan source))).size := by
    rw [Parser.errorCount_takeLines, turns.errors_eq,
      TokenLine.diagnostics, List.size_toArray,
      TokenLine.length_diagnosticsFrom]
    exact Nat.zero_add _
  rw [← program, ← errorCount, ← run]
  rfl

/-- A parse that takes its lines in turn reports their diagnostics in order. -/
theorem sink_of_run
    {report : σ → Diagnostic → σ}
    {state : σ}
    (turns : (Scanner.ofSource source).Turns lines)
    (run :
      (Parser.ofSource source state).run (.ofReporter report) =
        (Parser.ofSource source state).takeLines
          (.ofReporter report) lines) :
    (validateWith report state source).2 =
      (TokenLine.diagnostics
        (TokenLine.cut (scan source))).toList.foldl report state := by
  have heard :
      (validateWith report state source).2 =
        ((Parser.ofSource source state).run
          (Listener.ofReporter report)).sink := rfl
  have reported := turns.diagnostics_eq 1
  rw [heard, run, Parser.sink_takeLines, Listener.foldl_ofReporter]
  exact congrArg (List.foldl report state) reported

/-- Validation that takes its lines in turn returns what they come to. -/
theorem validate_of_run
    (turns : (Scanner.ofSource source).Turns lines)
    (run :
      (Parser.ofSource source #[]).run .collector =
        (Parser.ofSource source #[]).takeLines .collector lines) :
    validate source =
      ⟨TokenLine.program (TokenLine.cut (scan source)),
        TokenLine.diagnostics (TokenLine.cut (scan source))⟩ := by
  have found := report_of_run turns run
  have reported := sink_of_run turns run
  have collected :
      validate source =
        ⟨(parse .collector #[] source).1.program,
          (validateWith Array.push #[] source).2⟩ := rfl
  rw [collected, found, reported, List.foldl_push_eq_append',
    Array.empty_append, Array.toArray_toList]

end run

/-- The report of a parse holds what the lines of the text come to. -/
theorem report_parse
    (small : source.toList.count '\n' + 3 ≤ UInt32.size)
    (listener : Listener σ)
    (sink : σ) :
    (parse listener sink source).1 =
      ⟨TokenLine.program (TokenLine.cut (scan source)),
        (TokenLine.diagnostics (TokenLine.cut (scan source))).size⟩ := by
  obtain ⟨lines, turns, run⟩ := Parser.exists_run_ofSource small
  exact report_of_run turns (run listener sink)

/-- The diagnostics of the lines of a text are reported in order. -/
theorem sink_validateWith
    (small : source.toList.count '\n' + 3 ≤ UInt32.size)
    (report : σ → Diagnostic → σ)
    (state : σ) :
    (validateWith report state source).2 =
      (TokenLine.diagnostics
        (TokenLine.cut (scan source))).toList.foldl report state := by
  obtain ⟨lines, turns, run⟩ := Parser.exists_run_ofSource small
  exact sink_of_run turns (run _ state)

/-- Validation returns what the lines of a text come to. -/
theorem validate_eq
    (small : source.toList.count '\n' + 3 ≤ UInt32.size) :
    validate source =
      ⟨TokenLine.program (TokenLine.cut (scan source)),
        TokenLine.diagnostics (TokenLine.cut (scan source))⟩ := by
  obtain ⟨lines, turns, run⟩ := Parser.exists_run_ofSource small
  exact validate_of_run turns (run _ _)

/-- The number of every line fits into 32 bits. -/
theorem length_cut_scan_lt
    (small : source.toList.count '\n' + 3 ≤ UInt32.size) :
    (TokenLine.cut (scan source)).length < UInt32.size := by
  obtain ⟨lines, turns⟩ := (Scanner.ofSource source).exists_turns
  have behind :=
    (Parser.InStep.ofSource source ()).takeLines turns small
      ⟨fun _ _ => ()⟩ lines.length
  rw [List.take_length, List.nil_append] at behind
  have counted := behind.counted
  have bounded := behind.bounded
  have lengthLe : (TokenLine.cut (scan source)).length ≤ _ :=
    turns.length_cut_le
  omega

/--
A parse is the sum of the judgements on the lines of tokens, whatever listens
to it.  The lines hold all tokens of the text, every line that is not empty is
either accepted or rejected, and the number of a line is its place among them.
-/
theorem parse_line_by_line
    (source : String)
    (small : source.toList.count '\n' ≤ 2 ^ 32 - 3) :
    let lines := TokenLine.cut (scan source)
    lines.flatMap TokenLine.tokens = scan source ∧
      lines.length < UInt32.size ∧
      (∀ line ∈ lines, line.judge = .blank ↔ line.body = []) ∧
      validate source =
        ⟨TokenLine.program lines, TokenLine.diagnostics lines⟩ ∧
      ∀ (listener : Listener σ) (report : σ → Diagnostic → σ) (sink : σ),
        (parse listener sink source).1 =
            ⟨TokenLine.program lines,
              (TokenLine.diagnostics lines).size⟩ ∧
          (validateWith report sink source).2 =
            (TokenLine.diagnostics lines).toList.foldl report sink := by
  have noWrap : source.toList.count '\n' + 3 ≤ UInt32.size := by
    have size : UInt32.size = 2 ^ 32 := rfl
    omega
  intro lines
  refine ⟨TokenLine.flatMap_tokens_cut _, length_cut_scan_lt noWrap, ?_,
    validate_eq noWrap, ?_⟩
  · intro line _
    exact line.judge_eq_blank_iff
  · intro listener report sink
    exact ⟨report_parse noWrap listener sink,
      sink_validateWith noWrap report sink⟩

/--
A text with an accepted line, a line that ends too early, a comment and a line
without an opcode.
-/
theorem parse_line_by_line_mixed :
    let source := "load r1 => r2\nadd r1, r2\n// note\nfoo"
    let lines := TokenLine.cut (scan source)
    source.toList.count '\n' ≤ 2 ^ 32 - 3 ∧
      validate source =
        ⟨TokenLine.program lines, TokenLine.diagnostics lines⟩ ∧
      TokenLine.program lines = #[.mem .load 1 2] ∧
      TokenLine.diagnostics lines =
        #[⟨2, .mismatch .arithOp .into .newLine⟩,
          ⟨4, .notAnOpcode (.error .unknownWord)⟩] := by
  intro source lines
  have small : source.toList.count '\n' ≤ 2 ^ 32 - 3 := by
    decide
  obtain ⟨-, -, -, validated, -⟩ :=
    @parse_line_by_line Unit source small
  exact ⟨small, validated, by decide +kernel, by decide +kernel⟩

end parse

end Iloc
