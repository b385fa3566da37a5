import Iloc.Diagnostic
import Iloc.Instruction

namespace Iloc

/-!
# Statement forms

The tokens that must follow an opcode are fixed by the opcode alone.  A form
describes them one place at a time.  Where a place holds an operand the rest of
the form may use its number, so a form that has been followed to its end also
holds the instruction that was written.
-/

/-- The tokens that complete a statement, and the instruction they denote. -/
inductive Form where
  | register (rest : UInt32 → Form)
  | constant (rest : UInt32 → Form)
  | comma (rest : Form)
  | into (rest : Form)
  | endOfLine (instruction : Instruction)

namespace Opcode

/-- The form of the statements that start with an opcode. -/
def form : Opcode → Form
  | .mem op =>
      .register fun source =>
      .into <|
      .register fun destination =>
      .endOfLine (.mem op source destination)
  | .loadI =>
      .constant fun constant =>
      .into <|
      .register fun destination =>
      .endOfLine (.loadI constant destination)
  | .arith op =>
      .register fun left =>
      .comma <|
      .register fun right =>
      .into <|
      .register fun destination =>
      .endOfLine (.arith op left right destination)
  | .output =>
      .constant fun constant =>
      .endOfLine (.output constant)
  | .nop =>
      .endOfLine .nop

end Opcode

end Iloc
