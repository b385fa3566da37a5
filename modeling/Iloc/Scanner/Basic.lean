import Iloc.Text.Decimal
import Iloc.Text.WhiteSpace
import Iloc.Token

namespace Iloc

/-!
# The scanner

A scanner stands somewhere in a source text and reads one token at a time.  It
knows its place in two ways: as the list of characters still to be read, and as
a byte offset into the text.  Characters decide what a token is; a pair of
offsets cuts out the lexeme of a number or a word.

Reading always takes the longest lexeme.  Blanks separate lexemes and belong to
none.  Only line feeds count lines, whether they stand alone or end a comment.
At the end of the text every further reading yields the end token again.
-/

/-- A place in a source text. -/
structure Scanner where
  /-- The text being scanned, never changed. -/
  source : String
  /-- The characters that are still to be read. -/
  rest : List Char
  /-- The byte offset at which the current lexeme starts. -/
  start : String.Pos.Raw
  /-- The byte offset of the first character still to be read. -/
  position : String.Pos.Raw
  /-- The line of that character, counting from one. -/
  line : UInt32
  deriving DecidableEq

namespace Scanner

/-- The scanner at the beginning of a text. -/
def ofSource (source : String) : Scanner where
  source := source
  rest := source.toList
  start := 0
  position := 0
  line := 1

/-- Read one character, unless the text has ended. -/
def consume?
    (scanner : Scanner) :
    Option (Char × Scanner) :=
  match scanner.rest with
  | [] => none
  | character :: rest =>
      some (character,
        { scanner with
          rest := rest
          position := scanner.position + character })

/-- Read characters for as long as they satisfy a condition. -/
def consumeWhile
    (scanner : Scanner)
    (condition : Char → Bool) :
    Scanner :=
  { scanner with
    rest := scanner.rest.dropWhile condition
    position :=
      (scanner.rest.takeWhile condition).foldl (· + ·) scanner.position }

/-- Skip blanks and let the next lexeme start after them. -/
def skipBlanks
    (scanner : Scanner) :
    Scanner :=
  let scanner := scanner.consumeWhile Text.isBlank
  { scanner with start := scanner.position }

/-- The scanner one line further down, after a line feed has been read. -/
def nextLine
    (scanner : Scanner) :
    Scanner :=
  { scanner with line := scanner.line + 1 }

/-- The text between the start of the lexeme and the current place. -/
def lexeme
    (scanner : Scanner) :
    String :=
  scanner.start.extract scanner.source scanner.position

/-- The kind of a numeral: a constant if 32 bits hold it. -/
def numeralKind
    (numeral : String) :
    TokenKind :=
  match Text.word32? numeral.toList with
  | some value => .constant value
  | none => .error .overflow

/--
The kind of a word that is no mnemonic.  Registers are the letter r with a
numeral after it; a first digit after the letter makes every other ending a
malformed register, however large its number.
-/
def registerKind
    (word : String) :
    TokenKind :=
  match word.toList with
  | 'r' :: digits =>
      if (digits.head?.any Char.isDigit) = false then
        .error .unknownWord
      else if digits.all Char.isDigit = false then
        .error .malformedRegister
      else
        match Text.word32? digits with
        | some number => .register number
        | none => .error .overflow
  | _ => .error .unknownWord

/-- The kind of a word: its opcode if it is a mnemonic, else a register. -/
def wordKind
    (word : String) :
    TokenKind :=
  match Opcode.ofMnemonic? word with
  | some opcode => .opcode opcode
  | none => registerKind word

/-- Read what follows an equals sign. -/
def finishArrow
    (scanner : Scanner) :
    TokenKind × Scanner :=
  match scanner.consume? with
  | some ('>', scanner) => (.into, scanner)
  | _ => (.error .incompleteArrow, scanner)

/--
Read what follows a slash.  A comment takes the line feed after it, so that a
comment ends its line just as a line feed does.
-/
def finishComment
    (scanner : Scanner) :
    TokenKind × Scanner :=
  if scanner.rest.head? = some '/' then
    let scanner := scanner.consumeWhile (· != '\n')
    match scanner.consume? with
    | some (_, scanner) => (.comment, scanner.nextLine)
    | none => (.comment, scanner)
  else
    (.error .loneSlash, scanner)

/-- Read what follows the first digit of a numeral. -/
def finishNumeral
    (scanner : Scanner) :
    TokenKind × Scanner :=
  let scanner := scanner.consumeWhile Char.isDigit
  (numeralKind scanner.lexeme, scanner)

/-- Read what follows the first letter of a word. -/
def finishWord
    (scanner : Scanner) :
    TokenKind × Scanner :=
  let scanner := scanner.consumeWhile Char.isAlphanum
  (wordKind scanner.lexeme, scanner)

/-- Read one lexeme, of which nothing has been read yet. -/
def readKind
    (scanner : Scanner) :
    TokenKind × Scanner :=
  match scanner.consume? with
  | none => (.eof, scanner)
  | some (character, scanner) =>
      if character = '\n' then
        (.newLine, scanner.nextLine)
      else if character = ',' then
        (.comma, scanner)
      else if character = '=' then
        scanner.finishArrow
      else if character = '/' then
        scanner.finishComment
      else if character.isDigit then
        scanner.finishNumeral
      else if character.isAlpha then
        scanner.finishWord
      else
        (.error (.unexpectedChar character), scanner)

/-- Skip blanks and read one token. -/
def next
    (scanner : Scanner) :
    Token × Scanner :=
  let ready := scanner.skipBlanks
  let (kind, scanner) := ready.readKind
  (⟨kind, ready.line⟩, scanner)

end Scanner

end Iloc
