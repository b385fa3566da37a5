import Iloc.Proofs.Grammar.Acceptance
import Iloc.Proofs.Parser.Concatenation
import Iloc.Proofs.Parser.Repetition
import Iloc.Proofs.Parser.Trace

namespace Iloc

/-!
# Where the tokens go

Scanning a text and validating it are two passes over the same characters.  This
module draws up the account between the two: what the program and the
diagnostics hold is balanced against the tokens.

A line that holds something is either accepted or rejected, so it is charged
once.  An accepted line spends its tokens on its instruction, all of them and in
order; no instruction has a token in error, so a line with one is rejected.
Lines are balanced one by one, and the text is the sum of its lines.
-/

/-- The slots of a quadruple that are not empty, from left to right. -/
def Quadruple.operands (quadruple : Quadruple) : List UInt32 :=
  [quadruple.operand1, quadruple.operand2, quadruple.destination].filterMap
    id

namespace Instruction

end Instruction

namespace TokenLine

/-! ## The account of a line -/

section line

variable {line : TokenLine}

end line

/-! ## The account of a text -/

section lines

variable {lines : List TokenLine}

end lines

end TokenLine

variable {source : String}

end Iloc
