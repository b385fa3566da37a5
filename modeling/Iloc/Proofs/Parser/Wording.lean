import Iloc.Proofs.Parser.Moves
import Iloc.Proofs.Text.OneLine

namespace Iloc

/-!
# Wording

Everything that a parse has to tell is worded on one line, with no white space
but blanks.  The only characters of a source that are ever quoted are those of
unexpected characters, and white space is never unexpected.
-/

open Text (OneLine)

theorem Opcode.isPlainField_mnemonic
    (opcode : Opcode) :
    Text.IsPlainField opcode.mnemonic := by
  have listed :
      ∀ opcode ∈ Opcode.table, Text.IsPlainField opcode.mnemonic := by
    decide
  exact listed opcode opcode.mem_table

@[simp]
theorem Opcode.oneLine_mnemonic
    (opcode : Opcode) :
    OneLine opcode.mnemonic :=
  .of_isField opcode.isPlainField_mnemonic.isField

namespace Category

/-- Every category stands in the table. -/
theorem mem_table
    (category : Category) :
    category ∈ table := by
  cases category with
  | opcode opClass => cases opClass <;> decide
  | _ => decide

theorem isPlainField_name
    (category : Category) :
    Text.IsPlainField category.name := by
  have listed : ∀ category ∈ table, Text.IsPlainField category.name := by
    decide
  exact listed category category.mem_table

@[simp]
theorem oneLine_name
    (category : Category) :
    OneLine category.name :=
  .of_isField category.isPlainField_name.isField

end Category

@[simp]
theorem OpClass.oneLine_name
    (opClass : OpClass) :
    OneLine opClass.name :=
  (Category.opcode opClass).oneLine_name

@[simp]
theorem Terminal.oneLine_name
    (terminal : Terminal) :
    OneLine terminal.name := by
  cases terminal <;> decide

@[simp]
theorem Level.oneLine_name
    (level : Level) :
    OneLine level.name := by
  cases level <;> decide

/-- What an error says about its lexeme has one line. -/
theorem LexicalError.Shape.oneLine_text
    {reason : LexicalError}
    {text following : List Char}
    (shape : reason.Shape text following) :
    OneLine reason.text := by
  cases reason with
  | unexpectedChar character =>
      obtain ⟨-, unexpected⟩ := shape
      have notWhite := unexpected.notWhite
      change OneLine (_ ++ toString character ++ "'")
      simp +decide [notWhite]
  | _ => decide

/-- Kinds of token that are read have descriptions of one line. -/
theorem TokenKind.oneLine_text
    {kind : TokenKind}
    (scanned : kind.IsScanned) :
    OneLine kind.text := by
  obtain ⟨scanner, isRead⟩ := scanned
  obtain ⟨gap, text, reads⟩ := scanner.exists_reads
  have shape := reads.shape
  rw [isRead] at shape
  cases kind with
  | error reason =>
      have said : OneLine reason.text :=
        LexicalError.Shape.oneLine_text shape
      simp +decide [TokenKind.text, said]
  | _ => simp +decide [TokenKind.text]

/-- An error about a token that is read has one line. -/
theorem StatementError.oneLine_message
    {error : StatementError}
    (scanned : error.found.IsScanned) :
    OneLine error.message := by
  have found := TokenKind.oneLine_text scanned
  cases error with
  | mismatch opClass expected kind =>
      have place :
          OneLine s!"expected {expected.name}, found {kind.text}" := by
        rw [StatementError.found] at found
        simp +decide [found]
      have statement : OneLine s!"Incorrect {opClass.name} syntax: " := by
        simp +decide
      exact OneLine.append_iff.mpr ⟨statement, place⟩
  | notAnOpcode kind =>
      exact OneLine.append_iff.mpr ⟨by decide, found⟩

theorem Diagnostic.oneLine_text
    {diagnostic : Diagnostic}
    (scanned : diagnostic.error.found.IsScanned) :
    OneLine diagnostic.text := by
  have message := StatementError.oneLine_message scanned
  simp +decide [Diagnostic.text, Diagnostic.message, message]

namespace Quadruple

theorem isPlainField_slotText
    (slot : Option UInt32) :
    Text.IsPlainField (slotText slot) := by
  cases slot with
  | none => decide
  | some value => exact .repr value.toNat

/-- The fields of a quadruple are plain. -/
theorem isPlainField_of_mem_fields
    {quadruple : Quadruple}
    {field : String}
    (member : field ∈ quadruple.fields) :
    Text.IsPlainField field := by
  have each : ∀ field ∈ quadruple.fields, Text.IsPlainField field := by
    simp [fields, Opcode.isPlainField_mnemonic, isPlainField_slotText]
  exact each field member

end Quadruple

@[simp]
theorem Instruction.oneLine_text
    (instruction : Instruction) :
    OneLine instruction.text := by
  refine .intercalate (by decide) ?_
  intro field member
  exact .of_isField (Quadruple.isPlainField_of_mem_fields member).isField

/-- A record of a parse has one line, and so has that of unclear modes. -/
theorem LogRecord.oneLine_text
    {record : LogRecord}
    (arises : record ≠ .conflictingModes → (Event.log record).Arises) :
    OneLine record.text := by
  have component : OneLine record.component := by
    cases record <;> simp +decide [LogRecord.component]
  have message : OneLine record.message := by
    cases record with
    | scanned token =>
        have found := TokenKind.oneLine_text (arises nofun)
        simp +decide [LogRecord.message, found]
    | skipped line kind =>
        have found := TokenKind.oneLine_text (arises nofun)
        simp +decide [LogRecord.message, found]
    | _ => simp +decide [LogRecord.message]
  simp +decide [LogRecord.text, component, message]

end Iloc
