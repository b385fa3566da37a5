import Iloc.Listing
import Iloc.Proofs.Parser.Wording
import Mathlib.Data.List.Forall2

namespace Iloc

/-!
# Reading plain dumps

A plain dump is read back line by line, a line field by field.  The opcode tells
which slots an instruction fills, a slot that is not filled shows a hyphen, and
a number is shown in the one form that `Nat.repr` gives it.  So each step of the
reading has an answer exactly for what the dump writes, and a dump has the
program it was made of as its only source.
-/

namespace Quadruple

/-- The line of a quadruple is cut into the fields of the quadruple. -/
theorem fields_text
    (quadruple : Quadruple) :
    Text.fields quadruple.text = quadruple.fields := by
  refine Text.fields_intercalate (List.cons_ne_nil _ _) ?_
  intro field member
  exact (isPlainField_of_mem_fields member).notMem (by decide)

/-- The slot that a field shows.  Numerals have no leading zeros. -/
def slotOfText? (text : String) : Option (Option UInt32) :=
  if text = "-" then
    some none
  else
    ((Text.word32? text.toList).filter fun value =>
      slotText (some value) = text).map some

theorem slotOfText?_eq_some_iff
    {text : String}
    {slot : Option UInt32} :
    slotOfText? text = some slot ↔ text = slotText slot := by
  constructor
  · intro read
    rw [slotOfText?] at read
    split at read
    · rename_i isHyphen
      cases read
      exact isHyphen
    · obtain ⟨value, kept, rfl⟩ := Option.map_eq_some_iff.mp read
      obtain ⟨-, shown⟩ := Option.filter_eq_some_iff.mp kept
      exact (of_decide_eq_true shown).symm
  · rintro rfl
    cases slot with
    | none =>
        rfl
    | some value =>
        have read :
            Text.word32? (slotText (some value)).toList = some value := by
          rw [slotText, Nat.toList_repr]
          exact Text.word32?_toDigits value
        have notHyphen : slotText (some value) ≠ "-" :=
          Text.repr_ne_hyphen value.toNat
        rw [slotOfText?, if_neg notHyphen, read]
        simp

/-- The quadruple with the given fields. -/
def ofFields? : List String → Option Quadruple
  | [mnemonic, first, second, third] => do
      let opcode ← Opcode.ofMnemonic? mnemonic
      let operand1 ← slotOfText? first
      let operand2 ← slotOfText? second
      let destination ← slotOfText? third
      return ⟨opcode, operand1, operand2, destination⟩
  | _ => none

theorem ofFields?_eq_some_iff
    {texts : List String}
    {quadruple : Quadruple} :
    ofFields? texts = some quadruple ↔ texts = quadruple.fields := by
  constructor
  · intro read
    rw [ofFields?.eq_def] at read
    split at read
    · simp only [bind, Option.bind_eq_some_iff,
        Opcode.ofMnemonic?_eq_some_iff, slotOfText?_eq_some_iff] at read
      obtain ⟨opcode, rfl, operand1, rfl, operand2, rfl, destination,
        rfl, isQuadruple⟩ := read
      cases isQuadruple
      rfl
    · cases read
  · rintro rfl
    have read (slot : Option UInt32) :
        slotOfText? (slotText slot) = some slot :=
      slotOfText?_eq_some_iff.mpr rfl
    simp [ofFields?, fields, read]

end Quadruple

namespace Instruction

/-- The instruction with a quadruple, if its slots are those of its class. -/
def ofQuadruple? : Quadruple → Option Instruction
  | ⟨.mem op, some source, none, some destination⟩ =>
      some (.mem op source destination)
  | ⟨.loadI, some constant, none, some destination⟩ =>
      some (.loadI constant destination)
  | ⟨.arith op, some left, some right, some destination⟩ =>
      some (.arith op left right destination)
  | ⟨.output, some constant, none, none⟩ =>
      some (.output constant)
  | ⟨.nop, none, none, none⟩ =>
      some .nop
  | _ => none

/-- A quadruple comes from one instruction at most. -/
theorem ofQuadruple?_eq_some_iff
    {quadruple : Quadruple}
    {instruction : Instruction} :
    ofQuadruple? quadruple = some instruction ↔
      quadruple = instruction.quadruple := by
  constructor
  · intro read
    obtain ⟨_ | _ | _ | _ | _, _ | _, _ | _, _ | _⟩ := quadruple <;>
      cases read <;> rfl
  · rintro rfl
    cases instruction <;> rfl

/-- The instruction of a line. -/
def ofText? (line : String) : Option Instruction :=
  (Quadruple.ofFields? (Text.fields line)).bind ofQuadruple?

theorem ofText?_eq_some_iff
    {line : String}
    {instruction : Instruction} :
    ofText? line = some instruction ↔ line = instruction.text := by
  simp only [ofText?, Option.bind_eq_some_iff,
    Quadruple.ofFields?_eq_some_iff, ofQuadruple?_eq_some_iff]
  constructor
  · rintro ⟨quadruple, isLine, rfl⟩
    rw [← Text.intercalate_fields line, isLine]
    rfl
  · rintro rfl
    exact ⟨instruction.quadruple, Quadruple.fields_text _, rfl⟩

end Instruction

namespace Program

/-- The program of a plain dump. -/
def ofPlainDump? (text : String) : Option Program :=
  ((Text.wholeLines? text).bind fun lines =>
    lines.mapM Instruction.ofText?).map List.toArray

/-- The lines of a plain dump are those of its instructions. -/
theorem wholeLines?_plainDump
    (program : Program) :
    Text.wholeLines? program.plainDump =
      some (program.toList.map Instruction.text) := by
  refine Text.wholeLines?_unlines ?_
  rw [List.forall_mem_map]
  intro instruction _
  exact instruction.oneLine_text.lineFeed_notMem

/-- Nothing but the plain dump of a program is read as that program. -/
theorem ofPlainDump?_eq_some_iff
    {text : String}
    {program : Program} :
    ofPlainDump? text = some program ↔ text = program.plainDump := by
  constructor
  · intro read
    obtain ⟨instructions, found, rfl⟩ := Option.map_eq_some_iff.mp read
    obtain ⟨lines, isText, isProgram⟩ := Option.bind_eq_some_iff.mp found
    rw [Text.mapM_eq_some_iff_of_reads Instruction.ofText?_eq_some_iff]
      at isProgram
    rw [Text.eq_unlines_of_wholeLines? isText, isProgram]
    rfl
  · rintro rfl
    have isProgram :
        (program.toList.map Instruction.text).mapM Instruction.ofText? =
          some program.toList :=
      (Text.mapM_eq_some_iff_of_reads
        Instruction.ofText?_eq_some_iff).mpr rfl
    rw [ofPlainDump?, wholeLines?_plainDump, Option.bind_some, isProgram]
    rfl

end Program

/--
A plain dump loses nothing of its program.  It has a line for every instruction,
each made of four fields with single blanks between them and ended by a line
feed.  It is read back as the program, and no other text is, so two programs
with the same dump are the same.
-/
theorem plainDump_loses_nothing
    (program : Program) :
    (∃ lines,
        Text.wholeLines? program.plainDump = some lines ∧
          lines.length = program.size ∧
          ∀ line ∈ lines,
            (Text.fields line).length = 4 ∧
              ∀ field ∈ Text.fields line, Text.IsField field) ∧
      (∀ text,
        Program.ofPlainDump? text = some program ↔
          text = program.plainDump) ∧
      ∀ other : Program,
        program.plainDump = other.plainDump ↔ program = other := by
  refine ⟨⟨_, program.wholeLines?_plainDump, ?_, ?_⟩, ?_, ?_⟩
  · rw [List.length_map, Array.length_toList]
  · rw [List.forall_mem_map]
    intro instruction _
    rw [Instruction.text, Quadruple.fields_text]
    refine ⟨rfl, ?_⟩
    intro field member
    exact (Quadruple.isPlainField_of_mem_fields member).isField
  · intro text
    exact Program.ofPlainDump?_eq_some_iff
  · intro other
    constructor
    · intro same
      have read := Program.ofPlainDump?_eq_some_iff.mpr same
      rw [Program.ofPlainDump?_eq_some_iff.mpr rfl] at read
      exact Option.some.inj read
    · exact congrArg Program.plainDump

/-- Slots that a class does not use must be empty. -/
example :
    Program.ofPlainDump? "add 1 2 3\noutput 7 - -\n" =
        some #[.arith .add 1 2 3, .output 7] ∧
      Program.ofPlainDump? "output 7 - 1\n" = none := by
  decide +kernel

end Iloc
