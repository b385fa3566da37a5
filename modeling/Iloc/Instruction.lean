import Iloc.Opcode

namespace Iloc

/-!
# Instructions

An instruction is a statement whose operands have been checked.  A register is
held as its number, so the operand written `r7` is held as 7.

Dumps show every instruction as a quadruple of opcode, two operands and a
destination, in which the slots that a class does not use stay empty.  The
source form of an instruction is the statement that denotes it.
-/

/-- A checked statement with its operands, in the order they are written. -/
inductive Instruction where
  | mem (op : MemOp) (source destination : UInt32)
  | loadI (constant destination : UInt32)
  | arith (op : ArithOp) (left right destination : UInt32)
  | output (constant : UInt32)
  | nop
  deriving Repr, DecidableEq

/-- The flat layout of dumps: an opcode and three slots, each possibly empty. -/
structure Quadruple where
  opcode : Opcode
  operand1 : Option UInt32
  operand2 : Option UInt32
  destination : Option UInt32
  deriving Repr, DecidableEq

namespace Quadruple

/-- A slot is written in decimal, and as a hyphen when it is empty. -/
def slotText : Option UInt32 → String
  | some value => value.toNat.repr
  | none => "-"

/-- The four fields of a quadruple, from left to right. -/
def fields
    (quadruple : Quadruple) :
    List String :=
  [ quadruple.opcode.mnemonic,
    slotText quadruple.operand1,
    slotText quadruple.operand2,
    slotText quadruple.destination ]

/-- The fields with one blank between neighbours. -/
def text
    (quadruple : Quadruple) :
    String :=
  " ".intercalate quadruple.fields

end Quadruple

namespace Instruction

/-- The opcode an instruction was built from. -/
def opcode : Instruction → Opcode
  | .mem op _ _ => .mem op
  | .loadI _ _ => .loadI
  | .arith op _ _ _ => .arith op
  | .output _ => .output
  | .nop => .nop

/-- The quadruple of an instruction.  Only arithmetic fills the second slot. -/
def quadruple
    (instruction : Instruction) :
    Quadruple :=
  match instruction with
  | .mem _ source destination =>
      ⟨instruction.opcode, some source, none, some destination⟩
  | .loadI constant destination =>
      ⟨instruction.opcode, some constant, none, some destination⟩
  | .arith _ left right destination =>
      ⟨instruction.opcode, some left, some right, some destination⟩
  | .output constant =>
      ⟨instruction.opcode, some constant, none, none⟩
  | .nop =>
      ⟨instruction.opcode, none, none, none⟩

/-- The text of an instruction in dumps and log records. -/
def text
    (instruction : Instruction) :
    String :=
  instruction.quadruple.text

/-- The statement that denotes an instruction, in its shortest usual layout. -/
def sourceText
    (instruction : Instruction) :
    String :=
  let mnemonic := instruction.opcode.mnemonic
  match instruction with
  | .mem _ source destination =>
      s!"{mnemonic} r{source} => r{destination}"
  | .loadI constant destination =>
      s!"{mnemonic} {constant} => r{destination}"
  | .arith _ left right destination =>
      s!"{mnemonic} r{left}, r{right} => r{destination}"
  | .output constant =>
      s!"{mnemonic} {constant}"
  | .nop =>
      mnemonic

end Instruction

/-- A program is the sequence of its instructions, in source order. -/
abbrev Program := Array Instruction

end Iloc
