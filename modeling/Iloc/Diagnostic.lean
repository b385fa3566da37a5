import Iloc.Token

namespace Iloc

/-!
# Diagnostics

A statement is wrong in one of two ways: its first token is no opcode, or a
later token is not what the form of its class has at that place.  A diagnostic
attributes such an error to a line.
-/

/-- What a statement form can have at one place. -/
inductive Terminal where
  | register
  | constant
  | comma
  | into
  | endOfLine
  deriving Repr, DecidableEq

namespace Terminal

/-- The name of a place in the wording of a mismatch. -/
def name : Terminal → String
  | .register => "REG"
  | .constant => "CONST"
  | .comma => "COMMA"
  | .into => "INTO"
  | .endOfLine => "end of line"

end Terminal

/-- What is wrong with a statement. -/
inductive StatementError where
  /-- The token found does not fit the place it was found at. -/
  | mismatch (opClass : OpClass) (expected : Terminal) (found : TokenKind)
  /-- The token found cannot start a statement. -/
  | notAnOpcode (found : TokenKind)
  deriving Repr, DecidableEq

namespace StatementError

/-- The token that made the statement wrong. -/
def found : StatementError → TokenKind
  | .mismatch _ _ found => found
  | .notAnOpcode found => found

/-- The wording of an error, without its line. -/
def message : StatementError → String
  | .mismatch opClass expected found =>
      s!"Incorrect {opClass.name} syntax: " ++
        s!"expected {expected.name}, found {found.text}"
  | .notAnOpcode found =>
      s!"Statement must start with an Opcode, found {found.text}"

end StatementError

/-- An error together with the line of its statement. -/
structure Diagnostic where
  line : UInt32
  error : StatementError
  deriving Repr, DecidableEq

namespace Diagnostic

/-- The wording of the error. -/
def message (diagnostic : Diagnostic) : String :=
  diagnostic.error.message

/-- The line and the wording, as a diagnostic is shown to the user. -/
def text (diagnostic : Diagnostic) : String :=
  s!"{diagnostic.line}: {diagnostic.message}"

end Diagnostic

end Iloc
