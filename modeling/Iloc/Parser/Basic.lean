import Iloc.Event
import Iloc.Scanner.Progress
import Iloc.Statement

namespace Iloc

/-!
# The parser

A parser reads statements off a scanner, one to a line.  It never looks ahead:
every token it examines has been read.  An accepted statement adds its
instruction to the program.  A rejected one adds nothing and is reported, after
which the rest of its line is discarded, so that the next statement is read as
if nothing had happened.

The parser counts lines by the tokens that end them.  A line feed and a comment
begin a new line; the end of the text does not.
-/

universe u

/-- A parse under way, with the state of the listener that follows it. -/
structure Parser (σ : Type u) where
  scanner : Scanner
  /-- The line of the statement being read, counting from one. -/
  line : UInt32
  /-- Whether the rest of a rejected line still has to be discarded. -/
  pendingResync : Bool
  /-- The instructions accepted so far. -/
  program : Program
  /-- The number of lines rejected so far. -/
  errorCount : Nat
  /-- The line of the last error that was reported. -/
  lastReported : Option UInt32
  /-- The state of the listener. -/
  sink : σ

namespace Parser

variable {σ : Type u}

/-- A parser at the beginning of a text. -/
def ofSource
    (source : String)
    (sink : σ) :
    Parser σ where
  scanner := Scanner.ofSource source
  line := 1
  pendingResync := false
  program := #[]
  errorCount := 0
  lastReported := none
  sink := sink

/-- Let the listener hear an event. -/
def emit
    (listener : Listener σ)
    (event : Event)
    (parser : Parser σ) :
    Parser σ :=
  { parser with sink := listener.hear parser.sink event }

/-- Read one token, which the scanner logs. -/
def pull
    (listener : Listener σ)
    (parser : Parser σ) :
    TokenKind × Parser σ :=
  let (token, scanner) := parser.scanner.next
  (token.kind,
    { parser with scanner := scanner }.emit listener (.log (.scanned token)))

/-- Begin a new line, unless the terminator is the end of the text. -/
def endLine
    (terminator : TokenKind)
    (parser : Parser σ) :
    Parser σ :=
  match terminator with
  | .newLine => { parser with line := parser.line + 1 }
  | .comment => { parser with line := parser.line + 1 }
  | _ => parser

/--
Compare the tokens ahead with a form, place by place.  The first token that
does not fit has been read when the mismatch is returned; the token that ends
the statement begins a new line only if it fits.
-/
def check
    (listener : Listener σ)
    (opClass : OpClass) :
    Form → Parser σ → Except StatementError Instruction × Parser σ
  | .register rest, parser =>
      match parser.pull listener with
      | (.register number, parser) =>
          check listener opClass (rest number) parser
      | (found, parser) =>
          (.error (.mismatch opClass .register found), parser)
  | .constant rest, parser =>
      match parser.pull listener with
      | (.constant value, parser) =>
          check listener opClass (rest value) parser
      | (found, parser) =>
          (.error (.mismatch opClass .constant found), parser)
  | .comma rest, parser =>
      match parser.pull listener with
      | (.comma, parser) =>
          check listener opClass rest parser
      | (found, parser) =>
          (.error (.mismatch opClass .comma found), parser)
  | .into rest, parser =>
      match parser.pull listener with
      | (.into, parser) =>
          check listener opClass rest parser
      | (found, parser) =>
          (.error (.mismatch opClass .into found), parser)
  | .endOfLine instruction, parser =>
      let (found, parser) := parser.pull listener
      if found.isLineEnd then
        (.ok instruction, parser.endLine found)
      else
        (.error (.mismatch opClass .endOfLine found), parser)

/-- Add an instruction to the program. -/
def commit
    (listener : Listener σ)
    (instruction : Instruction)
    (parser : Parser σ) :
    Parser σ :=
  let parser :=
    parser.emit listener (.log (.committed parser.line instruction))
  { parser with program := parser.program.push instruction }

/-- Report an error, at most one for a line. -/
def report
    (listener : Listener σ)
    (error : StatementError)
    (parser : Parser σ) :
    Parser σ :=
  if parser.lastReported = some parser.line then
    parser
  else
    { parser with
      lastReported := some parser.line
      errorCount := parser.errorCount + 1 }.emit
        listener (.report ⟨parser.line, error⟩)

/--
Discard the rest of a rejected line.  The token that ends the line is discarded
as well, though not counted among the skipped ones.
-/
def sync
    (listener : Listener σ)
    (parser : Parser σ) :
    Parser σ :=
  if parser.pendingResync then
    let found := (parser.pull listener).1
    let later := (parser.pull listener).2
    if found.isLineEnd then
      { later with pendingResync := false }.endLine found
    else
      (later.emit listener (.log (.skipped later.line found))).sync listener
  else
    parser
termination_by parser.scanner.rest.length
decreasing_by
  rename_i inner
  exact parser.scanner.length_rest_next_lt
    (TokenKind.ne_eof_of_isLineEnd_eq_false (Bool.eq_false_iff.mpr inner))

/--
Take note of an error.  If the token in error ends the line, then nothing is
left to discard.
-/
def reject
    (listener : Listener σ)
    (error : StatementError)
    (parser : Parser σ) :
    Parser σ :=
  let parser := parser.report listener error
  if error.found.isLineEnd then
    parser.endLine error.found
  else
    { parser with pendingResync := true }.sync listener

/-- Take note of the outcome of a statement. -/
def settle
    (listener : Listener σ)
    (outcome : Except StatementError Instruction)
    (parser : Parser σ) :
    Parser σ :=
  match outcome with
  | .ok instruction => parser.commit listener instruction
  | .error error => parser.reject listener error

/-- How a parse goes on after one statement or one empty line. -/
inductive Turn (σ : Type u) where
  /-- There may be more statements. -/
  | again (parser : Parser σ)
  /-- The end of the text has been read. -/
  | done (parser : Parser σ)

/-- Read one statement or one empty line. -/
def step
    (listener : Listener σ)
    (parser : Parser σ) :
    Turn σ :=
  match parser.pull listener with
  | (.eof, parser) =>
      .done parser
  | (.newLine, parser) =>
      .again (parser.endLine .newLine)
  | (.comment, parser) =>
      .again (parser.endLine .comment)
  | (.opcode opcode, parser) =>
      let (outcome, parser) :=
        parser.check listener opcode.opClass opcode.form
      .again (parser.settle listener outcome)
  | (found, parser) =>
      .again (parser.settle listener (.error (.notAnOpcode found)))

end Parser

end Iloc
