import Iloc.Listing
import Iloc.Proofs.Grammar.Acceptance
import Iloc.Proofs.Parser.Repetition
import Iloc.Proofs.Text.UniqueReading

namespace Iloc

/-!
# Printing and validating

A printed program is a text of which every line is a statement, so validation
finds the program again and nothing to reject.

Where no line is rejected there is no report for a later one to repeat.  Such a
text is validated as the grammar says even if it has more lines than 32 bits can
count.
-/

namespace TokenLine

/-- A line with an error is a rejected line. -/
theorem error?_eq_none_iff
    (line : TokenLine) :
    line.error? = none ↔ line.verdict ≠ .rejected := by
  rw [error?, verdict]
  cases line.judge <;> simp

/-- Lines without errors have no diagnostics. -/
theorem diagnosticsFrom_of_faultless
    (number : Nat)
    {lines : List TokenLine}
    (faultless : ∀ line ∈ lines, line.error? = none) :
    diagnosticsFrom number lines = [] := by
  have none := List.filterMap_eq_nil_iff.mpr faultless
  have length := length_diagnosticsFrom number lines
  rw [none] at length
  exact List.eq_nil_of_length_eq_zero length

end TokenLine

/-- Validation of a text in whose lines there is no error. -/
theorem validate_of_faultless
    {source : String}
    (faultless :
      ∀ line ∈ TokenLine.cut (scan source), line.error? = none) :
    validate source =
      ⟨TokenLine.program (TokenLine.cut (scan source)), #[]⟩ := by
  rw [validate_eq_destutter,
    TokenLine.diagnosticsFrom_of_faultless 1 faultless]
  rfl

/-- Validation of a text of which the grammar rejects no line. -/
theorem validate_of_verdicts
    {source : String}
    {verdicts : List Verdict}
    (judged :
      List.Forall₂ Grammar.Judges
        ((source.toList.splitOn '\n').map Text.uncommented) verdicts)
    (noneRejected : .rejected ∉ verdicts) :
    validate source =
      ⟨(verdicts.filterMap Verdict.instruction?).toArray, #[]⟩ := by
  obtain ⟨others, number, otherJudged, cutShape⟩ := exists_verdicts source
  have unique : Relator.RightUnique Grammar.Judges := by
    intro text verdict other first second
    exact first.unique second
  obtain rfl := List.right_unique_forall₂' unique judged otherJudged
  have faultless :
      ∀ line ∈ TokenLine.cut (scan source), line.error? = none := by
    intro line member
    rw [line.error?_eq_none_iff]
    intro isRejected
    have isVerdict :
        Verdict.rejected ∈
          verdicts ++ List.replicate number Verdict.blank := by
      rw [← cutShape, ← isRejected]
      exact List.mem_map_of_mem member
    rcases List.mem_append.mp isVerdict with rejected | blank
    · exact noneRejected rejected
    · cases List.eq_of_mem_replicate blank
  rw [validate_of_faultless faultless, TokenLine.program,
    ← TokenLine.filterMap_verdict, cutShape,
    Verdict.filterMap_append_blank]

/-- If no token of a text ends a line, then it is one line without a comment. -/
theorem Text.inline_of_innerKinds
    {characters : List Char}
    (inner :
      ∀ kind ∈ innerKinds characters, kind.isLineEnd = false) :
    '\n' ∉ characters ∧ uncommented characters = characters := by
  induction characters using induction_lines with
  | lastLine line inline =>
      refine ⟨inline, ?_⟩
      by_contra commented
      have isComment : TokenKind.comment ∈ innerKinds line := by
        rw [innerKinds_line inline, if_neg commented]
        exact List.mem_append_right _ List.mem_cons_self
      cases inner _ isComment
  | append line rest inline inductionHypothesis =>
      have isInner :
          lineEnd line ∈ innerKinds (line ++ '\n' :: rest) := by
        rw [innerKinds, kinds_line_append inline, kinds_eq rest,
          ← List.cons_append, ← List.append_assoc, List.dropLast_concat]
        simp
      have notInner := inner _ isInner
      rw [isLineEnd_lineEnd] at notInner
      cases notInner

namespace Grammar

/-- A statement stays within its line and is not cut off by a comment. -/
theorem inline_of_mem_statement
    {text : List Char}
    {instruction : Instruction}
    (isStatement : text ∈ instruction.statement) :
    '\n' ∉ text ∧ Text.uncommented text = text := by
  apply Text.inline_of_innerKinds
  rw [mem_statement_iff.mp isStatement]
  cases instruction <;> simp [Instruction.kinds, TokenKind.isLineEnd]

theorem nil_mem_blanks : [] ∈ blanks :=
  List.forall_mem_nil _

theorem space_mem_blanks : [' '] ∈ blanks :=
  List.forall_mem_singleton.mpr rfl

theorem space_mem_separator : [' '] ∈ separator :=
  ⟨space_mem_blanks, List.cons_ne_nil _ _⟩

/-- A number printed in decimal is a numeral of it. -/
theorem toDigits_mem_numeral
    (value : UInt32) :
    Nat.toDigits 10 value.toNat ∈ numeral value := by
  refine ⟨Nat.toDigits_ne_nil, ?_, Nat.ofDigitChars_ten_toDigits⟩
  intro character member
  exact Nat.isDigit_of_mem_toDigits (by decide) (by decide) member

theorem toDigits_mem_register
    (number : UInt32) :
    'r' :: Nat.toDigits 10 number.toNat ∈ register number :=
  ⟨_, toDigits_mem_numeral number, rfl⟩

section append

open Language

variable {text : List Char} {before : Language Char}

/-- A statement begins with its mnemonic and a space. -/
theorem opcode_mem
    (opcode : Opcode) :
    [] ++ opcode.mnemonic.toList ++ [' '] ∈
      blanks * word opcode * separator := by
  have isWord : opcode.mnemonic.toList ∈ word opcode := rfl
  exact
    append_mem_mul (append_mem_mul nil_mem_blanks isWord)
      space_mem_separator

/-- Two operands are separated by a comma and a space. -/
theorem append_comma_mem
    (operand : text ∈ before) :
    text ++ [] ++ [','] ++ [' '] ∈ before * blanks * comma * blanks := by
  have isComma : [','] ∈ comma := rfl
  exact
    append_mem_mul
      (append_mem_mul (append_mem_mul operand nil_mem_blanks) isComma)
      space_mem_blanks

/-- The register in which a result is put follows on an arrow. -/
theorem append_destination_mem
    (operands : text ∈ before)
    (destination : UInt32) :
    text ++ [' '] ++ ['=', '>'] ++ [' '] ++
          'r' :: Nat.toDigits 10 destination.toNat ++ [] ∈
      before * blanks * arrow * blanks * register destination *
        blanks := by
  have isArrow : ['=', '>'] ∈ arrow := rfl
  have throughArrow :=
    append_mem_mul (append_mem_mul operands space_mem_blanks) isArrow
  have throughRegister :=
    append_mem_mul (append_mem_mul throughArrow space_mem_blanks)
      (toDigits_mem_register destination)
  exact append_mem_mul throughRegister nil_mem_blanks

end append

end Grammar

namespace Text

/-- A number is printed with its digits. -/
theorem toList_toString
    (value : UInt32) :
    (toString value).toList = Nat.toDigits 10 value.toNat :=
  Nat.toList_repr

/-- A text is printed as it is. -/
theorem toString_eq_self
    (text : String) :
    toString text = text := rfl

end Text

open Grammar Language in
/-- A printed instruction is a statement of the instruction. -/
theorem Instruction.sourceText_mem_statement
    (instruction : Instruction) :
    instruction.sourceText.toList ∈ instruction.statement := by
  cases instruction with
  | mem op source destination =>
      have shape :
          (Instruction.mem op source destination).sourceText.toList =
            [] ++ (Opcode.mem op).mnemonic.toList ++ [' '] ++
              'r' :: Nat.toDigits 10 source.toNat ++ [' '] ++
              ['=', '>'] ++ [' '] ++
              'r' :: Nat.toDigits 10 destination.toNat ++ [] := by
        simp [sourceText, opcode, Text.toString_eq_self,
          Text.toList_toString]
      have operand :=
        append_mem_mul (opcode_mem (.mem op))
          (toDigits_mem_register source)
      rw [shape]
      exact append_destination_mem operand destination
  | loadI constant destination =>
      have shape :
          (Instruction.loadI constant destination).sourceText.toList =
            [] ++ Opcode.loadI.mnemonic.toList ++ [' '] ++
              Nat.toDigits 10 constant.toNat ++ [' '] ++
              ['=', '>'] ++ [' '] ++
              'r' :: Nat.toDigits 10 destination.toNat ++ [] := by
        simp [sourceText, opcode, Text.toString_eq_self,
          Text.toList_toString]
      have operand :=
        append_mem_mul (opcode_mem .loadI) (toDigits_mem_numeral constant)
      rw [shape]
      exact append_destination_mem operand destination
  | arith op left right destination =>
      have shape :
          (Instruction.arith op left right destination).sourceText.toList =
            [] ++ (Opcode.arith op).mnemonic.toList ++ [' '] ++
              'r' :: Nat.toDigits 10 left.toNat ++ [] ++ [','] ++ [' '] ++
              'r' :: Nat.toDigits 10 right.toNat ++ [' '] ++
              ['=', '>'] ++ [' '] ++
              'r' :: Nat.toDigits 10 destination.toNat ++ [] := by
        simp [sourceText, opcode, Text.toString_eq_self,
          Text.toList_toString]
      have first :=
        append_mem_mul (opcode_mem (.arith op))
          (toDigits_mem_register left)
      have operands :=
        append_mem_mul (append_comma_mem first)
          (toDigits_mem_register right)
      rw [shape]
      exact append_destination_mem operands destination
  | output constant =>
      have shape :
          (Instruction.output constant).sourceText.toList =
            [] ++ Opcode.output.mnemonic.toList ++ [' '] ++
              Nat.toDigits 10 constant.toNat ++ [] := by
        simp [sourceText, opcode, Text.toString_eq_self,
          Text.toList_toString]
      have operand :=
        append_mem_mul (opcode_mem .output) (toDigits_mem_numeral constant)
      rw [shape]
      exact append_mem_mul operand nil_mem_blanks
  | nop =>
      have isWord : Opcode.nop.mnemonic.toList ∈ word .nop := rfl
      exact
        append_mem_mul (append_mem_mul nil_mem_blanks isWord)
          nil_mem_blanks

/-! ## Printed programs -/

/-- The statements of some instructions, with line feeds between them. -/
def printed (instructions : List Instruction) : String :=
  "\n".intercalate (instructions.map Instruction.sourceText)

/-- What the grammar makes of printed instructions. -/
def printedVerdicts : List Instruction → List Verdict
  | [] => [.blank]
  | first :: rest => (first :: rest).map .accepted

theorem filterMap_printedVerdicts
    (instructions : List Instruction) :
    (printedVerdicts instructions).filterMap Verdict.instruction? =
      instructions := by
  cases instructions with
  | nil =>
      rfl
  | cons first rest =>
      rw [printedVerdicts, List.filterMap_map]
      exact List.filterMap_some

theorem rejected_notMem_printedVerdicts
    (instructions : List Instruction) :
    .rejected ∉ printedVerdicts instructions := by
  cases instructions <;> simp [printedVerdicts]

/-- The lines of printed instructions are their statements. -/
theorem judges_printed
    (instructions : List Instruction) :
    List.Forall₂ Grammar.Judges
      (((printed instructions).toList.splitOn '\n').map
        Text.uncommented)
      (printedVerdicts instructions) := by
  have isStatement (instruction : Instruction) :=
    instruction.sourceText_mem_statement
  cases instructions with
  | nil =>
      exact .cons (List.forall_mem_nil _) .nil
  | cons first rest =>
      have inline :
          ∀ line ∈ ((first :: rest).map Instruction.sourceText).map
              String.toList,
            '\n' ∉ line := by
        intro line member
        rw [List.map_map] at member
        obtain ⟨instruction, -, rfl⟩ := List.mem_map.mp member
        exact (Grammar.inline_of_mem_statement (isStatement _)).1
      have lineFeed : "\n".toList = ['\n'] := rfl
      rw [printed, String.toList_intercalate, lineFeed,
        List.splitOn_intercalate '\n' inline (List.cons_ne_nil _ _),
        List.map_map, List.map_map, printedVerdicts,
        List.forall₂_map_left_iff, List.forall₂_map_right_iff,
        List.forall₂_same]
      intro instruction _
      have uncut :=
        (Grammar.inline_of_mem_statement (isStatement instruction)).2
      rw [Function.comp_apply, Function.comp_apply, uncut]
      exact isStatement instruction

/-- A line feed at the end of a text adds a blank line. -/
theorem judges_lineFeed
    {source : String}
    {verdicts : List Verdict}
    (judged :
      List.Forall₂ Grammar.Judges
        ((source.toList.splitOn '\n').map Text.uncommented) verdicts) :
    List.Forall₂ Grammar.Judges
      (((source ++ "\n").toList.splitOn '\n').map Text.uncommented)
      (verdicts ++ [.blank]) := by
  have shape : (source ++ "\n").toList = source.toList ++ ['\n'] := by
    simp
  have blank :
      List.Forall₂ Grammar.Judges [Text.uncommented []] [.blank] :=
    .cons (List.forall_mem_nil _) .nil
  rw [shape, List.splitOn_append_cons_self, List.map_append]
  exact List.rel_append judged blank

/-- Printed instructions are validated to the same instructions. -/
theorem validate_printed
    (instructions : List Instruction) :
    validate (printed instructions) = ⟨instructions.toArray, #[]⟩ := by
  rw [validate_of_verdicts (judges_printed instructions)
      (rejected_notMem_printedVerdicts instructions),
    filterMap_printedVerdicts]

/-- So they are with a line feed at their end. -/
theorem validate_printed_lineFeed
    (instructions : List Instruction) :
    validate (printed instructions ++ "\n") =
      ⟨instructions.toArray, #[]⟩ := by
  have noneRejected :
      .rejected ∉ printedVerdicts instructions ++ [.blank] := by
    have notBefore := rejected_notMem_printedVerdicts instructions
    simp [notBefore]
  rw [validate_of_verdicts (judges_lineFeed (judges_printed instructions))
      noneRejected, List.filterMap_append, filterMap_printedVerdicts]
  exact congrArg (Validation.mk · #[]) (by simp [Verdict.instruction?])

/-- A text of whole lines is one of lines with line feeds between them. -/
theorem Text.unlines_eq
    {lines : List String}
    (nonempty : lines ≠ []) :
    unlines lines = "\n".intercalate lines ++ "\n" := by
  induction lines with
  | nil =>
      exact absurd rfl nonempty
  | cons line lines inductionHypothesis =>
      rw [unlines_cons]
      cases lines with
      | nil =>
          simp [unlines]
      | cons next rest =>
          have behind := inductionHypothesis (List.cons_ne_nil _ _)
          rw [behind, String.intercalate_cons_cons]
          simp only [String.append_assoc]

/-- The source text of a program is validated to the program. -/
theorem validate_sourceText
    (program : Program) :
    validate program.sourceText = ⟨program, #[]⟩ := by
  by_cases empty : program.toList = []
  · obtain rfl : program = #[] := Array.toList_eq_nil_iff.mp empty
    exact validate_printed []
  · have nonempty : program.toList.map Instruction.sourceText ≠ [] := by
      simpa using empty
    rw [Program.sourceText, Text.unlines_eq nonempty]
    exact validate_printed_lineFeed program.toList

/--
Printing and validating are inverse to each other.  Whatever the instructions
and their operands, their statements are validated to them and nothing is
rejected, be there a line feed at the end or not.  Printing the program of any
text therefore gives a text with the same program.
-/
theorem validate_printed_program :
    (∀ instructions : List Instruction,
        validate (printed instructions) = ⟨instructions.toArray, #[]⟩ ∧
          validate (printed instructions ++ "\n") =
            ⟨instructions.toArray, #[]⟩) ∧
      ∀ source : String,
        let program := (validate source).program
        validate (printed program.toList) = ⟨program, #[]⟩ ∧
          validate (printed program.toList ++ "\n") = ⟨program, #[]⟩ ∧
            validate program.sourceText = ⟨program, #[]⟩ := by
  constructor
  · intro instructions
    exact ⟨validate_printed instructions,
      validate_printed_lineFeed instructions⟩
  · intro source program
    exact ⟨validate_printed program.toList,
      validate_printed_lineFeed program.toList,
      validate_sourceText program⟩

/-- Every class of statements, with the smallest and the largest numbers. -/
example :
    printed
        [.mem .load 0 4294967295, .loadI 7 1, .arith .lshift 1 20 300,
          .output 1024, .nop] =
      "load r0 => r4294967295\nloadI 7 => r1\n" ++
        "lshift r1, r20 => r300\noutput 1024\nnop" := by
  decide +kernel

end Iloc
