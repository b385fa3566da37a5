namespace Iloc.Text

/-!
# Control sequences

Text that is not written by the program itself may hold control characters, and
sequences of characters with which a terminal would be controlled.  The printed
part of a text is what remains when all of them are left out.

The sequences are those of ECMA-48.  They start with the escape character.  One
may be cancelled, or interrupted by the next, at any point.  Tabs and line ends
are layout rather than control: inside of a sequence that executes controls they
are printed too.  Printing then goes on until the next control character, where
the sequence is taken up again, unless a character beyond ASCII ends it.

A text of printed characters alone is its own printed part.
-/

/-- Tabs and line ends, which are printed although they are controls. -/
def isLayout (character : Char) : Bool :=
  character == '\t' || character == '\n' ||
    character == '\x0c' || character == '\r'

/-- Whether a character is printed outside of control sequences. -/
def isPrinted (character : Char) : Bool :=
  isLayout character || (' ' ≤ character && character != '\x7f')

/-- Whether a character lies in a range of code points, both ends included. -/
def isBetween
    (first last character : Char) :
    Bool :=
  first ≤ character && character ≤ last

/-- The part of a control sequence that has been read so far. -/
inductive Sequence where
  /-- The escape character alone. -/
  | escape
  /-- An escape with intermediate characters after it. -/
  | intermediate
  /-- A control sequence, which its first letter ends. -/
  | control
  /-- The start of a device control string. -/
  | device
  /-- The parameters of a device control string. -/
  | deviceParameters
  /-- The intermediate characters of a device control string. -/
  | deviceIntermediate
  /-- An operating system command, which a bell ends. -/
  | command
  /-- The body of any other string, which a string terminator ends. -/
  | string
  deriving Repr, DecidableEq

namespace Sequence

/-- Whether controls inside of a sequence are executed, not taken as its data. -/
def executes : Sequence → Bool
  | .escape => true
  | .intermediate => true
  | .control => true
  | _ => false

/-- The sequence that the character after the escape character begins. -/
def afterEscape (character : Char) : Option Sequence :=
  if isBetween ' ' '/' character then
    some .intermediate
  else if character = '[' then
    some .control
  else if character = 'P' then
    some .device
  else if character = ']' then
    some .command
  else if character = 'X' || character = '^' || character = '_' then
    some .string
  else if isBetween '0' '~' character then
    none
  else
    some .escape

/--
Whether a character ends a string.  The terminator is the single byte 9C, which
counts wherever it stands in the encoding of a character.
-/
def endsString (character : Char) : Bool :=
  (String.utf8EncodeChar character).contains 0x9C

/-- A sequence after one more character, or nothing if the character ends it. -/
def next?
    (sequence : Sequence)
    (character : Char) :
    Option Sequence :=
  if character = '\x18' || character = '\x1a' then
    none
  else if character = '\x1b' then
    some .escape
  else
    match sequence with
    | .escape =>
        afterEscape character
    | .intermediate =>
        if isBetween '0' '~' character then none else some .intermediate
    | .control =>
        if isBetween '@' '~' character then none else some .control
    | .device =>
        if isBetween ' ' '/' character then
          some .deviceIntermediate
        else if isBetween '0' '?' character then
          some .deviceParameters
        else if isBetween '@' '~' character then
          some .string
        else
          some .device
    | .deviceParameters =>
        if isBetween ' ' '/' character then
          some .deviceIntermediate
        else if isBetween '<' '~' character then
          some .string
        else
          some .deviceParameters
    | .deviceIntermediate =>
        if isBetween '0' '~' character then
          some .string
        else
          some .deviceIntermediate
    | .command =>
        if character = '\x07' then none else some .command
    | .string =>
        if endsString character then none else some .string

end Sequence

/-- Where a reader of a text stands in relation to control sequences. -/
inductive Reading where
  /-- Outside of any sequence. -/
  | outside
  /-- Inside of a sequence. -/
  | inside (sequence : Sequence)
  /-- In text that is printed before a sequence is taken up again. -/
  | paused (sequence : Sequence)
  deriving Repr, DecidableEq

namespace Reading

/-- The reading of the rest of a sequence, if there is any. -/
def ofSequence? : Option Sequence → Reading
  | some sequence => .inside sequence
  | none => .outside

/-- Whether a character is printed, and the reading after it. -/
def step
    (reading : Reading)
    (character : Char) :
    Bool × Reading :=
  match reading with
  | .outside =>
      if character = '\x1b' then
        (false, .inside .escape)
      else
        (isPrinted character, .outside)
  | .inside sequence =>
      if isLayout character && sequence.executes then
        (true, .paused sequence)
      else
        (false, ofSequence? (sequence.next? character))
  | .paused sequence =>
      if isPrinted character then
        (true, if character ≤ '\x7f' then .paused sequence else .outside)
      else
        (false, ofSequence? (sequence.next? character))

/-- The printed characters of a text that is read on from some point. -/
def printed
    (reading : Reading) :
    List Char → List Char
  | [] => []
  | character :: characters =>
      let (shown, reading) := reading.step character
      if shown then
        character :: reading.printed characters
      else
        reading.printed characters

end Reading

/-- The printed part of a text. -/
def printedPart (text : String) : String :=
  String.ofList (Reading.outside.printed text.toList)

/-- Outside of sequences, printed characters are all kept. -/
theorem printed_outside_eq_self
    {characters : List Char}
    (plain : ∀ character ∈ characters, isPrinted character = true) :
    Reading.outside.printed characters = characters := by
  induction characters with
  | nil =>
      rfl
  | cons character characters inductionHypothesis =>
      have shown : isPrinted character = true :=
        plain character List.mem_cons_self
      have noEscape : character ≠ '\x1b' := by
        intro equality
        subst equality
        revert shown
        decide
      have rest :=
        inductionHypothesis fun other member =>
          plain other (List.mem_cons_of_mem character member)
      simp [Reading.printed, Reading.step, noEscape, shown, rest]

/-- A text of printed characters alone is its own printed part. -/
theorem printedPart_eq_self
    {text : String}
    (plain : ∀ character ∈ text.toList, isPrinted character = true) :
    printedPart text = text := by
  unfold printedPart
  rw [printed_outside_eq_self plain, String.ofList_toList]

end Iloc.Text
