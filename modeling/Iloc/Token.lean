import Iloc.Opcode

namespace Iloc

/-!
# Tokens

A token is the kind of a lexeme together with the line the lexeme starts on.
A lexeme that has no meaning becomes a token too, one that carries the reason,
so scanning never fails.

Every kind belongs to one of thirteen categories.  The token listing shows the
number and the name of the category and, where there is one, a value: the
number of an opcode, the number denoted by a constant or a register, or the
code of a lexical error.
-/

/-- Reasons for which a lexeme has no meaning. -/
inductive LexicalError where
  /-- A character that starts no lexeme. -/
  | unexpectedChar (character : Char)
  /-- A word that is neither a mnemonic nor the start of a register. -/
  | unknownWord
  /-- A word of the letter r and a digit with more than digits after it. -/
  | malformedRegister
  /-- An equals sign without the bracket that completes the arrow. -/
  | incompleteArrow
  /-- A slash without the second one that starts a comment. -/
  | loneSlash
  /-- A constant or a register whose number needs more than 32 bits. -/
  | overflow
  deriving Repr, DecidableEq

namespace LexicalError

/-- The number that the token listing shows for an error. -/
def code : LexicalError → Nat
  | .unexpectedChar _ => 0
  | .unknownWord => 1
  | .malformedRegister => 2
  | .incompleteArrow => 3
  | .loneSlash => 4
  | .overflow => 5

/-- The wording of an error.  An unexpected character stands for itself. -/
def text : LexicalError → String
  | .unexpectedChar character => s!"unexpected character '{character}'"
  | .unknownWord => "unknown word"
  | .malformedRegister => "malformed register"
  | .incompleteArrow => "expected '>' after '='"
  | .loneSlash => "expected '/' after '/'"
  | .overflow => "literal too large"

end LexicalError

/-- What a lexeme is. -/
inductive TokenKind where
  | opcode (opcode : Opcode)
  | constant (value : UInt32)
  | register (number : UInt32)
  | comma
  | into
  | eof
  | comment
  | newLine
  | error (reason : LexicalError)
  deriving Repr, DecidableEq

/-- The kinds of token without the data that they carry. -/
inductive Category where
  | opcode (opClass : OpClass)
  | constant
  | register
  | comma
  | into
  | eof
  | comment
  | newLine
  | error
  deriving Repr, DecidableEq

namespace Category

/-- All categories, in the order that numbers them. -/
def table : List Category :=
  [ .opcode .memOp,
    .opcode .loadI,
    .opcode .arithOp,
    .opcode .output,
    .opcode .nop,
    .constant,
    .register,
    .comma,
    .into,
    .eof,
    .comment,
    .newLine,
    .error ]

/-- The number of a category is its position in the table. -/
def number (category : Category) : Nat :=
  table.idxOf category

/-- The name of a category.  Opcodes go by the name of their class. -/
def name : Category → String
  | .opcode opClass => opClass.name
  | .constant => "CONST"
  | .register => "REG"
  | .comma => "COMMA"
  | .into => "INTO"
  | .eof => "EOF"
  | .comment => "COMMENT"
  | .newLine => "NEWLINE"
  | .error => "ERROR"

end Category

namespace TokenKind

/-- The category that a kind belongs to. -/
def category : TokenKind → Category
  | .opcode op => .opcode op.opClass
  | .constant _ => .constant
  | .register _ => .register
  | .comma => .comma
  | .into => .into
  | .eof => .eof
  | .comment => .comment
  | .newLine => .newLine
  | .error _ => .error

/-- The opcode of an opcode token. -/
def opcode? : TokenKind → Option Opcode
  | .opcode op => some op
  | _ => none

/-- The value of a kind, absent from punctuation and line structure. -/
def value? : TokenKind → Option Nat
  | .opcode op => some op.index
  | .constant value => some value.toNat
  | .register number => some number.toNat
  | .error reason => some reason.code
  | _ => none

/-- Whether a token may stand at the end of a statement. -/
def isLineEnd : TokenKind → Bool
  | .newLine => true
  | .comment => true
  | .eof => true
  | _ => false

/-- The description of a kind in diagnostics and log records. -/
def text (kind : TokenKind) : String :=
  let category := kind.category.name
  match kind with
  | .opcode op => s!"{category} {op.mnemonic}"
  | .constant value => s!"{category} {value}"
  | .register number => s!"{category} r{number}"
  | .error reason => s!"{category} ({reason.text})"
  | _ => category

/-- A kind that cannot end a statement is not the end of the input. -/
theorem ne_eof_of_isLineEnd_eq_false
    {kind : TokenKind}
    (inner : kind.isLineEnd = false) :
    kind ≠ .eof := by
  intro equality
  subst equality
  cases inner

end TokenKind

/-- A classified lexeme. -/
structure Token where
  kind : TokenKind
  /-- The line the lexeme starts on, counting from one. -/
  line : UInt32
  deriving Repr, DecidableEq

namespace Token

/-- The entry of a token in the token listing.  Lines are not listed. -/
def text (token : Token) : String :=
  let category := token.kind.category
  let value :=
    match token.kind.value? with
    | some value => value.repr
    | none => "-"
  s!"{category.number} {category.name}, {value}"

end Token

end Iloc
