import Iloc.Instruction
import Iloc.Text.Lines
import Iloc.Text.Table
import Iloc.Token

namespace Iloc

/-!
# Listings

Tokens and programs as text.  A token listing and a plain dump have one line per
token or instruction, each ended by a line feed.  A program can also be drawn as
a table, which shows the same fields as the plain dump behind a row number.
-/

/-- The listing of tokens, one per line. -/
def tokenListing (tokens : List Token) : String :=
  Text.unlines (tokens.map Token.text)

namespace Program

/-- The plain dump of a program, one quadruple per line. -/
def plainDump (program : Program) : String :=
  Text.unlines (program.toList.map Instruction.text)

/-- The table of a program.  Rows are numbered from zero. -/
def toTable (program : Program) : Text.Table where
  header := ["index", "opcode", "operand1", "operand2", "destination"]
  rows :=
    program.toList.zipIdx.map fun (instruction, index) =>
      index.repr :: instruction.quadruple.fields

/-- The table of a program as text. -/
def tableDump (program : Program) : String :=
  program.toTable.text

/-- The statements of a program, one per line. -/
def sourceText (program : Program) : String :=
  Text.unlines (program.toList.map Instruction.sourceText)

end Program

end Iloc
