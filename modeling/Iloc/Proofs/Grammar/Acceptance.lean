import Iloc.Proofs.Grammar.Statement
import Iloc.Proofs.Parser.LineByLine
import Mathlib.Data.List.Forall2

namespace Iloc

/-!
# What is accepted

Validation accepts exactly the statements of the grammar, one to a line, and
rejects every other line that is not blank.

A line of tokens is accepted if its kinds are those of an instruction.  The
kinds of a line of tokens are those of a line of the text without its comment,
and these are the kinds of an instruction exactly for its statements.
-/

/-- Tokens fit a pattern place by place. -/
theorem firstMismatch?_eq_none_iff
    {places : List Terminal}
    {operands : List Token}
    {terminator : Token}
    (inside : .endOfLine ∉ places)
    (inner : ∀ token ∈ operands, token.kind.isLineEnd = false)
    (ended : terminator.kind.isLineEnd = true) :
    firstMismatch? (places ++ [.endOfLine]) (operands ++ [terminator]) =
        none ↔
      List.Forall₂
        (fun place token => place.admits token.kind = true)
        places operands := by
  induction places generalizing operands with
  | nil =>
      cases operands with
      | nil =>
          simp [firstMismatch?, Terminal.admits_endOfLine, ended]
      | cons token rest =>
          have refused := (List.forall_mem_cons.mp inner).1
          simp [firstMismatch?, Terminal.admits_endOfLine, refused]
  | cons place places inductionHypothesis =>
      have placeInside : place ≠ .endOfLine := by
        rintro rfl
        exact inside List.mem_cons_self
      have placesInside : .endOfLine ∉ places := by
        intro member
        exact inside (List.mem_cons_of_mem place member)
      cases operands with
      | nil =>
          have refused :=
            Terminal.admits_eq_false placeInside ended
          simp [firstMismatch?, refused]
      | cons token rest =>
          have restInner := (List.forall_mem_cons.mp inner).2
          rw [List.forall₂_cons, ← inductionHypothesis placesInside
            restInner]
          cases fits : place.admits token.kind with
          | true =>
              simp [firstMismatch?, fits]
          | false =>
              simp [firstMismatch?, fits]

/-- The tokens that stand at some places, if they give some numbers. -/
def Terminal.fill : List Terminal → List UInt32 → List TokenKind
  | .register :: places, number :: values =>
      .register number :: fill places values
  | .constant :: places, value :: values =>
      .constant value :: fill places values
  | .comma :: places, values => .comma :: fill places values
  | .into :: places, values => .into :: fill places values
  | _, _ => []

/-- A token that fits its place is known from the number it gives. -/
theorem Terminal.fill_cons
    {place : Terminal}
    {kind : TokenKind}
    (inside : place ≠ .endOfLine)
    (admitted : place.admits kind = true)
    (places : List Terminal)
    (values : List UInt32) :
    fill (place :: places) (kind.operand?.toList ++ values) =
      kind :: fill places values := by
  cases place with
  | endOfLine =>
      exact absurd rfl inside
  | register =>
      cases kind with
      | register number => rfl
      | _ => cases admitted
  | constant =>
      cases kind with
      | constant value => rfl
      | _ => cases admitted
  | comma =>
      cases kind with
      | comma => rfl
      | _ => cases admitted
  | into =>
      cases kind with
      | into => rfl
      | _ => cases admitted

/-- Tokens that fit their places are known from the numbers they give. -/
theorem map_kind_eq_fill
    {places : List Terminal}
    {operands : List Token}
    (inside : .endOfLine ∉ places)
    (fits :
      List.Forall₂
        (fun place token => place.admits token.kind = true)
        places operands) :
    operands.map (·.kind) =
      Terminal.fill places (operands.filterMap (·.kind.operand?)) := by
  induction fits with
  | nil =>
      rfl
  | @cons place token places operands admitted rest
      inductionHypothesis =>
      obtain ⟨placeInside, placesInside⟩ :=
        not_or.mp (List.mem_cons.not.mp inside)
      have values :
          (token :: operands).filterMap (·.kind.operand?) =
            token.kind.operand?.toList ++
              operands.filterMap (·.kind.operand?) := by
        rw [List.filterMap_cons]
        cases token.kind.operand? <;> rfl
      rw [values,
        Terminal.fill_cons (Ne.symm placeInside) admitted places,
        List.map_cons, inductionHypothesis placesInside]

namespace Opcode

/-- The places of the operands of a statement. -/
def places (opcode : Opcode) : List Terminal :=
  opcode.opClass.pattern.dropLast

theorem endOfLine_notMem_places
    (opcode : Opcode) :
    .endOfLine ∉ opcode.places := by
  cases opcode <;> simp [places, opClass, OpClass.pattern]

theorem places_append
    (opcode : Opcode) :
    opcode.places ++ [.endOfLine] = opcode.opClass.pattern := by
  cases opcode <;> rfl

/-- An instruction is told by its opcode and its numbers. -/
theorem kinds_eq_of_instruction?
    {opcode : Opcode}
    {values : List UInt32}
    {instruction : Instruction}
    (built : opcode.instruction? values = some instruction) :
    instruction.kinds =
      .opcode opcode :: Terminal.fill opcode.places values := by
  match opcode, values, built with
  | .mem op, [source, destination], rfl => rfl
  | .loadI, [constant, destination], rfl => rfl
  | .arith op, [left, right, destination], rfl => rfl
  | .output, [constant], rfl => rfl
  | .nop, [], rfl => rfl

end Opcode

namespace Instruction

theorem kinds_eq
    (instruction : Instruction) :
    instruction.kinds =
      .opcode instruction.opcode :: instruction.kinds.tail := by
  cases instruction <;> rfl

/-- The tokens of an instruction fit the places of its opcode. -/
theorem fits_kinds
    (instruction : Instruction) :
    List.Forall₂
      (fun place kind => place.admits kind = true)
      instruction.opcode.places instruction.kinds.tail := by
  cases instruction with
  | mem op source destination =>
      exact .cons rfl (.cons rfl (.cons rfl .nil))
  | loadI constant destination =>
      exact .cons rfl (.cons rfl (.cons rfl .nil))
  | arith op left right destination =>
      exact .cons rfl (.cons rfl (.cons rfl (.cons rfl (.cons rfl .nil))))
  | output constant =>
      exact .cons rfl .nil
  | nop =>
      exact .nil

/-- The tokens of an instruction give its numbers. -/
theorem instruction?_kinds
    (instruction : Instruction) :
    instruction.opcode.instruction?
        (instruction.kinds.tail.filterMap TokenKind.operand?) =
      some instruction := by
  cases instruction <;> rfl

theorem kinds_injective : Function.Injective kinds := by
  intro instruction other same
  rw [instruction.kinds_eq, other.kinds_eq] at same
  obtain ⟨sameOpcode, sameTail⟩ := List.cons.inj same
  have built := instruction.instruction?_kinds
  rw [sameTail, TokenKind.opcode.inj sameOpcode,
    other.instruction?_kinds] at built
  exact (Option.some.inj built).symm

end Instruction

namespace TokenLine

variable {line : TokenLine} {instruction : Instruction}

/-- A line that begins with an opcode is accepted if the operands fit. -/
theorem judge_eq_accepted_iff_fits
    {opcode : Opcode}
    {first : Token}
    {operands : List Token}
    (bodyShape : line.body = first :: operands)
    (isOpcode : first.kind = .opcode opcode) :
    line.judge = .accepted instruction ↔
      List.Forall₂
          (fun place token => place.admits token.kind = true)
          opcode.places operands ∧
        opcode.instruction? (operands.filterMap (·.kind.operand?)) =
          some instruction := by
  have inner := line.inner
  rw [bodyShape] at inner
  rw [← firstMismatch?_eq_none_iff opcode.endOfLine_notMem_places
    (List.forall_mem_cons.mp inner).2 line.ended, opcode.places_append,
    judge, bodyShape]
  simp only [isOpcode]
  cases compared :
      firstMismatch? opcode.opClass.pattern
        (operands ++ [line.terminator]) with
  | some mismatch =>
      simp
  | none =>
      cases built :
          opcode.instruction? (operands.filterMap (·.kind.operand?)) with
      | none =>
          simp
      | some other =>
          simp

/-- An accepted line begins with an opcode. -/
theorem exists_opcode_of_accepted
    (accepted : line.judge = .accepted instruction) :
    ∃ first operands opcode,
      line.body = first :: operands ∧ first.kind = .opcode opcode := by
  rw [judge] at accepted
  split at accepted
  · cases accepted
  · rename_i first operands bodyShape
    dsimp only at accepted
    split at accepted
    · rename_i opcode isOpcode
      exact ⟨first, operands, opcode, bodyShape, isOpcode⟩
    · cases accepted

/-- A line is accepted as the instruction that has tokens of the same kinds. -/
theorem judge_eq_accepted_iff :
    line.judge = .accepted instruction ↔
      line.body.map (·.kind) = instruction.kinds := by
  constructor
  · intro accepted
    obtain ⟨first, operands, opcode, bodyShape, isOpcode⟩ :=
      exists_opcode_of_accepted accepted
    obtain ⟨fits, built⟩ :=
      (judge_eq_accepted_iff_fits bodyShape isOpcode).mp accepted
    rw [bodyShape, List.map_cons, isOpcode,
      map_kind_eq_fill opcode.endOfLine_notMem_places fits,
      Opcode.kinds_eq_of_instruction? built]
  · intro hasKinds
    rw [instruction.kinds_eq] at hasKinds
    obtain ⟨first, operands, bodyShape, isOpcode, operandKinds⟩ :=
      List.map_eq_cons_iff.mp hasKinds
    have fits := instruction.fits_kinds
    have built := instruction.instruction?_kinds
    rw [← operandKinds, List.forall₂_map_right_iff] at fits
    rw [← operandKinds, List.filterMap_map] at built
    exact
      (judge_eq_accepted_iff_fits bodyShape isOpcode).mpr ⟨fits, built⟩

/--
Cut into lines, the tokens of a text are their kinds split at the kinds that end
a line.
-/
theorem map_kinds_cut
    (scanner : Scanner) :
    (cut scanner.tokens).map (fun line => line.body.map (·.kind)) ++
        [[]] =
      (scanner.tokens.map (·.kind)).splitOnP TokenKind.isLineEnd := by
  induction scanner using Scanner.induction_next with
  | ended scanner isEnd =>
      have ended : scanner.next.1.kind.isLineEnd = true := by
        rw [isEnd]
        rfl
      have endsLine :
          [scanner.next.1.kind].splitOnP TokenKind.isLineEnd =
            [[], []] := by
        rw [List.splitOnP_cons_eq_if_modifyHead, if_pos ended]
        rfl
      rw [Scanner.tokens_of_eof isEnd, cut_cons_of_ended ended]
      exact endsLine.symm
  | inner scanner inner inductionHypothesis =>
      rw [Scanner.tokens_of_ne_eof inner, List.map_cons,
        List.splitOnP_cons_eq_if_modifyHead, ← inductionHypothesis]
      cases ended : scanner.next.1.kind.isLineEnd with
      | true =>
          rw [cut_cons_of_ended ended]
          rfl
      | false =>
          obtain ⟨line, lines, restCut⟩ :=
            exists_cons_cut scanner.next.2
          rw [cut_cons_of_inner ended restCut, restCut]
          rfl

/--
The lines of the tokens of a text are those of its lines, each without its
comment, and maybe one of no tokens at the end.
-/
theorem exists_cut_scan
    (source : String) :
    ∃ lines extra,
      cut (scan source) = lines ++ extra ∧
        (source.toList.splitOn '\n').map
            (fun line => Text.innerKinds (Text.uncommented line)) =
          lines.map (fun line => line.body.map (·.kind)) ∧
        ∀ line ∈ extra, line.body = [] := by
  have byTokens := map_kinds_cut (.ofSource source)
  have byText := Text.splitOnP_kinds source.toList
  obtain ⟨extraKinds, byText, allEmpty⟩ := byText
  rw [Text.kinds_toList] at byText
  have same := List.append_cancel_right (byTokens.trans byText)
  obtain ⟨lines, extra, split, linesKinds, rfl⟩ :=
    List.map_eq_append_iff.mp same
  refine ⟨lines, extra, split, linesKinds.symm, ?_⟩
  intro line member
  exact List.map_eq_nil_iff.mp (allEmpty _ (List.mem_map_of_mem member))

end TokenLine

/-- What becomes of a line of a text. -/
inductive Verdict where
  | blank
  | accepted (instruction : Instruction)
  | rejected
  deriving Repr, DecidableEq

namespace Verdict

/-- The instruction that a line adds to the program. -/
def instruction? : Verdict → Option Instruction
  | .accepted instruction => some instruction
  | _ => none

/-- The numbers of the rejected lines, the first line having a given number. -/
def rejectedFrom
    (number : Nat)
    (verdicts : List Verdict) :
    List Nat :=
  (verdicts.zipIdx number).filterMap fun (verdict, number) =>
    if verdict = .rejected then some number else none

/-- Blank lines at the end add nothing to the program. -/
theorem filterMap_append_blank
    (verdicts : List Verdict)
    (number : Nat) :
    (verdicts ++ List.replicate number Verdict.blank).filterMap instruction? =
      verdicts.filterMap instruction? := by
  have nothing : blank.instruction? = none := rfl
  rw [List.filterMap_append, List.filterMap_replicate_of_none nothing,
    List.append_nil]

theorem rejectedFrom_cons
    (number : Nat)
    (verdict : Verdict)
    (verdicts : List Verdict) :
    rejectedFrom number (verdict :: verdicts) =
      (if verdict = .rejected then [number] else []) ++
        rejectedFrom (number + 1) verdicts := by
  simp only [rejectedFrom, List.zipIdx_cons, List.filterMap_cons]
  by_cases isRejected : verdict = .rejected
  · rw [if_pos isRejected, if_pos isRejected]
    rfl
  · rw [if_neg isRejected, if_neg isRejected]
    rfl

/-- Blank lines at the end leave the numbers of the rejected lines alone. -/
theorem rejectedFrom_append_blank
    (number : Nat)
    (verdicts : List Verdict)
    (more : Nat) :
    rejectedFrom number (verdicts ++ List.replicate more Verdict.blank) =
      rejectedFrom number verdicts := by
  induction verdicts generalizing number with
  | nil =>
      induction more generalizing number with
      | zero =>
          rfl
      | succ more inductionHypothesis =>
          exact inductionHypothesis (number + 1)
  | cons verdict verdicts inductionHypothesis =>
      rw [List.cons_append, rejectedFrom_cons, rejectedFrom_cons,
        inductionHypothesis]

end Verdict

namespace TokenLine

variable {line : TokenLine}

/-- What becomes of a line of tokens. -/
def verdict (line : TokenLine) : Verdict :=
  match line.judge with
  | .blank => .blank
  | .accepted instruction => .accepted instruction
  | .rejected _ _ _ => .rejected

/-- The program holds the instructions of the accepted lines. -/
theorem filterMap_verdict
    (lines : List TokenLine) :
    (lines.map verdict).filterMap Verdict.instruction? =
      lines.filterMap instruction? := by
  rw [List.filterMap_map]
  apply List.filterMap_congr
  intro line _
  rw [Function.comp_apply, verdict, instruction?]
  cases line.judge <;> rfl

theorem verdict_of_body_eq_nil
    (empty : line.body = []) :
    line.verdict = .blank := by
  rw [verdict, line.judge_eq_blank_iff.mpr empty]

/-- The diagnostics carry the numbers of the rejected lines. -/
theorem map_line_diagnosticsFrom
    (number : Nat)
    (lines : List TokenLine)
    (small : number + lines.length ≤ UInt32.size) :
    (diagnosticsFrom number lines).map (·.line.toNat) =
      Verdict.rejectedFrom number (lines.map verdict) := by
  induction lines generalizing number with
  | nil =>
      rfl
  | cons line lines inductionHypothesis =>
      rw [List.length_cons] at small
      have exactNumber : (UInt32.ofNat number).toNat = number :=
        UInt32.toNat_ofNat_of_lt (by omega)
      have behind := inductionHypothesis (number + 1) (by omega)
      rw [diagnosticsFrom_cons, List.map_append, behind, List.map_cons,
        Verdict.rejectedFrom_cons, error?, verdict]
      congr 1
      cases line.judge with
      | blank =>
          rfl
      | accepted instruction =>
          rfl
      | rejected error read unread =>
          exact congrArg (fun value => [value]) exactNumber

end TokenLine

namespace Grammar

/-- The verdict of the grammar on what is left of a line without its comment. -/
def Judges (text : List Char) : Verdict → Prop
  | .blank => text ∈ blanks
  | .accepted instruction => text ∈ instruction.statement
  | .rejected =>
      text ∉ blanks ∧ ∀ instruction : Instruction,
        text ∉ instruction.statement

variable {text : List Char}

theorem mem_blanks_iff :
    text ∈ blanks ↔ Text.innerKinds text = [] := by
  rw [← spelled_nil]
  rfl

theorem mem_statement_iff
    {instruction : Instruction} :
    text ∈ instruction.statement ↔
      Text.innerKinds text = instruction.kinds := by
  rw [statement_eq_spelled]
  rfl

/-- The tokens of a text get the verdict of the grammar on the text. -/
theorem judges_verdict
    {line : TokenLine}
    (sameKinds : Text.innerKinds text = line.body.map (·.kind)) :
    Judges text line.verdict := by
  rw [TokenLine.verdict]
  cases judged : line.judge with
  | blank =>
      apply mem_blanks_iff.mpr
      rw [sameKinds, line.judge_eq_blank_iff.mp judged]
      rfl
  | accepted instruction =>
      apply mem_statement_iff.mpr
      rw [sameKinds, TokenLine.judge_eq_accepted_iff.mp judged]
  | rejected error read unread =>
      constructor
      · intro isBlank
        rw [mem_blanks_iff, sameKinds, List.map_eq_nil_iff] at isBlank
        rw [line.judge_eq_blank_iff.mpr isBlank] at judged
        cases judged
      · intro instruction isStatement
        rw [mem_statement_iff, sameKinds] at isStatement
        rw [TokenLine.judge_eq_accepted_iff.mpr isStatement] at judged
        cases judged

/-- No text is blank and a statement, or the statement of two instructions. -/
theorem Judges.unique
    {verdict other : Verdict}
    (judged : Judges text verdict)
    (otherJudged : Judges text other) :
    verdict = other := by
  have notBlank {instruction : Instruction}
      (isStatement : text ∈ instruction.statement) :
      text ∉ blanks := by
    rw [mem_blanks_iff, mem_statement_iff.mp isStatement,
      instruction.kinds_eq]
    exact List.cons_ne_nil _ _
  cases verdict with
  | blank =>
      cases other with
      | blank => rfl
      | accepted instruction => exact absurd judged (notBlank otherJudged)
      | rejected => exact absurd judged otherJudged.1
  | accepted instruction =>
      cases other with
      | blank => exact absurd otherJudged (notBlank judged)
      | accepted instruction' =>
          have kinds := mem_statement_iff.mp judged
          have otherKinds := mem_statement_iff.mp otherJudged
          rw [Instruction.kinds_injective (kinds.symm.trans otherKinds)]
      | rejected => exact absurd judged (otherJudged.2 instruction)
  | rejected =>
      cases other with
      | blank => exact absurd otherJudged judged.1
      | accepted instruction =>
          exact absurd otherJudged (judged.2 instruction)
      | rejected => rfl

/-- The grammar leaves no text without a verdict. -/
theorem exists_judges
    (text : List Char) :
    ∃ verdict, Judges text verdict := by
  by_cases isBlank : text ∈ blanks
  · exact ⟨.blank, isBlank⟩
  by_cases isStatement :
      ∃ instruction : Instruction, text ∈ instruction.statement
  · obtain ⟨instruction, member⟩ := isStatement
    exact ⟨.accepted instruction, member⟩
  · exact ⟨.rejected, isBlank, not_exists.mp isStatement⟩

end Grammar

/--
The lines of a text get the verdicts of the grammar.  Lines of tokens beyond
them are blank.
-/
theorem exists_verdicts
    (source : String) :
    ∃ verdicts number,
      List.Forall₂ Grammar.Judges
          ((source.toList.splitOn '\n').map Text.uncommented) verdicts ∧
        (TokenLine.cut (scan source)).map TokenLine.verdict =
          verdicts ++ List.replicate number Verdict.blank := by
  obtain ⟨lines, extra, split, sameKinds, allEmpty⟩ :=
    TokenLine.exists_cut_scan source
  have paired :
      List.Forall₂
        (fun line tokens =>
          Text.innerKinds (Text.uncommented line) =
            tokens.body.map (·.kind))
        (source.toList.splitOn '\n') lines := by
    rw [← List.forall₂_eq_eq_eq, List.forall₂_map_left_iff,
      List.forall₂_map_right_iff] at sameKinds
    exact sameKinds
  have allBlank :
      extra.map TokenLine.verdict =
        List.replicate extra.length Verdict.blank := by
    apply List.eq_replicate_iff.mpr
    refine ⟨List.length_map _, ?_⟩
    intro verdict member
    obtain ⟨line, inExtra, rfl⟩ := List.mem_map.mp member
    exact TokenLine.verdict_of_body_eq_nil (allEmpty line inExtra)
  refine ⟨lines.map TokenLine.verdict, extra.length, ?_, ?_⟩
  · rw [List.forall₂_map_left_iff, List.forall₂_map_right_iff]
    exact paired.imp fun _ _ => Grammar.judges_verdict
  · rw [split, List.map_append, allBlank]

/--
Validation is the verdict of the grammar on every line of a text without its
comment.  Every text has one verdict; the program holds the instructions of the
accepted lines in order, and the diagnostics are as many as the rejected lines
and carry their numbers.
-/
theorem validate_by_grammar
    (source : String)
    (small : source.toList.count '\n' ≤ 2 ^ 32 - 3) :
    (∀ text, ∃! verdict, Grammar.Judges text verdict) ∧
      ∃ verdicts,
        List.Forall₂ Grammar.Judges
            ((source.toList.splitOn '\n').map Text.uncommented) verdicts ∧
          (validate source).program.toList =
            verdicts.filterMap Verdict.instruction? ∧
          (validate source).diagnostics.toList.map (·.line.toNat) =
            Verdict.rejectedFrom 1 verdicts := by
  have noWrap : source.toList.count '\n' + 3 ≤ UInt32.size := by
    have size : UInt32.size = 2 ^ 32 := rfl
    omega
  constructor
  · intro text
    obtain ⟨verdict, judged⟩ := Grammar.exists_judges text
    refine ⟨verdict, judged, ?_⟩
    intro other otherJudged
    exact otherJudged.unique judged
  · obtain ⟨verdicts, number, judged, cutShape⟩ :=
      exists_verdicts source
    have counted := length_cut_scan_lt noWrap
    refine ⟨verdicts, judged, ?_, ?_⟩
    · rw [validate_eq noWrap, TokenLine.program,
        ← TokenLine.filterMap_verdict, cutShape,
        Verdict.filterMap_append_blank]
    · rw [validate_eq noWrap, TokenLine.diagnostics,
        TokenLine.map_line_diagnosticsFrom _ _ (by omega), cutShape,
        Verdict.rejectedFrom_append_blank]

/--
A statement with a leading zero and a comment, an empty line, a mnemonic that
runs into its register, and a statement in the last line.
-/
theorem validate_by_grammar_mixed :
    let source :=
      "output 07//x\n\naddr1,r2=>r3\nnop"
    source.toList.count '\n' ≤ 2 ^ 32 - 3 ∧
      ∃ verdicts,
        List.Forall₂ Grammar.Judges
            ((source.toList.splitOn '\n').map Text.uncommented) verdicts ∧
          verdicts.filterMap Verdict.instruction? =
            [.output 7, .nop] ∧
          Verdict.rejectedFrom 1 verdicts = [3] := by
  intro source
  have small : source.toList.count '\n' ≤ 2 ^ 32 - 3 := by
    decide
  obtain ⟨-, verdicts, judged, program, numbers⟩ :=
    validate_by_grammar source small
  refine ⟨small, verdicts, judged, ?_, ?_⟩
  · rw [← program]
    decide +kernel
  · rw [← numbers]
    decide +kernel

end Iloc
