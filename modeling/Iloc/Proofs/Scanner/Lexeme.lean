import Iloc.Scanner.Tokens

namespace Iloc

/-!
# The shapes of lexemes

A lexeme is the text that one token stands for.  Every kind of token demands a
shape of its lexeme.  Where a longer lexeme might have been read, the shape
also says what does not follow, so a shape relates a lexeme to the text after
it.

At one place of a text at most one lexeme has a shape that some kind demands.
The proof computes this lexeme from the characters ahead alone, and shows that
every lexeme with a shape is the one computed.
-/

namespace Text

/-- A text does not go on with a character that satisfies a condition. -/
def EndsRun
    (condition : Char → Bool)
    (following : List Char) :
    Prop :=
  ∀ character ∈ following.head?, condition character = false

/-- The end of a text continues no run. -/
theorem endsRun_nil
    (condition : Char → Bool) :
    EndsRun condition [] := by
  intro character isHead
  cases isHead

/-- A character that does not satisfy a condition ends a run. -/
theorem endsRun_cons
    {condition : Char → Bool}
    {first : Char}
    (refused : condition first = false)
    (rest : List Char) :
    EndsRun condition (first :: rest) := by
  intro character isHead
  cases isHead
  exact refused

/-- What is left after all satisfying characters does not go on with one. -/
theorem endsRun_dropWhile
    (condition : Char → Bool)
    (characters : List Char) :
    EndsRun condition (characters.dropWhile condition) := by
  intro character isHead
  have stopped :=
    List.head?_dropWhile_not condition characters
  rw [Option.mem_def.mp isHead] at stopped
  exact stopped

/-- A run that is not continued is all that its condition takes. -/
theorem takeWhile_run
    {condition : Char → Bool}
    {run following : List Char}
    (satisfied : ∀ character ∈ run, condition character = true)
    (ended : EndsRun condition following) :
    (run ++ following).takeWhile condition = run := by
  rw [List.takeWhile_append_of_pos satisfied]
  cases following with
  | nil =>
      simp
  | cons first rest =>
      have refused : condition first = false :=
        ended first rfl
      simp [refused]

/-- A run that is not continued leaves exactly what follows it. -/
theorem dropWhile_run
    {condition : Char → Bool}
    {run following : List Char}
    (satisfied : ∀ character ∈ run, condition character = true)
    (ended : EndsRun condition following) :
    (run ++ following).dropWhile condition = following := by
  rw [List.dropWhile_append_of_pos satisfied]
  cases following with
  | nil =>
      rfl
  | cons first rest =>
      have refused : condition first = false :=
        ended first rfl
      simp [refused]

theorem isDigit_iff
    {character : Char} :
    character.isDigit = true ↔
      48 ≤ character.toNat ∧ character.toNat ≤ 57 := by
  have ranges :
      character.isDigit =
        (decide (48 ≤ character.val) && decide (character.val ≤ 57)) :=
    rfl
  rw [ranges, Bool.and_eq_true, decide_eq_true_iff, decide_eq_true_iff,
    UInt32.le_iff_toNat_le, UInt32.le_iff_toNat_le]
  rfl

theorem isAlpha_iff
    {character : Char} :
    character.isAlpha = true ↔
      65 ≤ character.toNat ∧ character.toNat ≤ 90 ∨
        97 ≤ character.toNat ∧ character.toNat ≤ 122 := by
  have ranges :
      character.isAlpha =
        (decide (65 ≤ character.val ∧ character.val ≤ 90) ||
          decide (97 ≤ character.val) && decide (character.val ≤ 122)) :=
    rfl
  rw [ranges, Bool.or_eq_true, Bool.and_eq_true, decide_eq_true_iff,
    decide_eq_true_iff, decide_eq_true_iff, UInt32.le_iff_toNat_le,
    UInt32.le_iff_toNat_le, UInt32.le_iff_toNat_le,
    UInt32.le_iff_toNat_le]
  rfl

/-- Blanks are neither letters nor digits. -/
theorem isAlphanum_of_isWhiteSpace
    {character : Char}
    (white : isWhiteSpace character = true) :
    character.isAlphanum = false := by
  simp only [isWhiteSpace, whiteSpaceRanges, List.any_cons, List.any_nil,
    Bool.or_eq_true, Bool.and_eq_true, decide_eq_true_eq,
    Bool.or_false] at white
  rw [Bool.eq_false_iff, ne_eq, Char.isAlphanum, Bool.or_eq_true,
    isAlpha_iff, isDigit_iff]
  omega

theorem isAlphanum_of_isDigit
    {character : Char}
    (digit : character.isDigit = true) :
    character.isAlphanum = true := by
  rw [Char.isAlphanum, digit, Bool.or_true]

theorem isAlphanum_of_isAlpha
    {character : Char}
    (letter : character.isAlpha = true) :
    character.isAlphanum = true := by
  rw [Char.isAlphanum, letter, Bool.true_or]

/-- Letters and digits open no lexeme of another kind. -/
theorem ne_of_isAlphanum
    {character : Char}
    (alphanumeric : character.isAlphanum = true) :
    character ≠ '\n' ∧ character ≠ ',' ∧ character ≠ '=' ∧
      character ≠ '/' := by
  refine ⟨?_, ?_, ?_, ?_⟩ <;> rintro rfl <;> cases alphanumeric

/-- No letter is a digit. -/
theorem isDigit_of_isAlpha
    {character : Char}
    (letter : character.isAlpha = true) :
    character.isDigit = false := by
  rw [isAlpha_iff] at letter
  rw [Bool.eq_false_iff, ne_eq, isDigit_iff]
  omega

end Text

/-- A run of digits that no further digit continues. -/
inductive IsNumeral : List Char → List Char → Prop where
  | run
      {first : Char}
      {rest following : List Char}
      (digit : first.isDigit = true)
      (digits : ∀ character ∈ rest, character.isDigit = true)
      (longest : Text.EndsRun Char.isDigit following) :
      IsNumeral (first :: rest) following

/-- A letter with letters and digits after it, and none that follows. -/
inductive IsWord : List Char → List Char → Prop where
  | run
      {first : Char}
      {rest following : List Char}
      (letter : first.isAlpha = true)
      (alphanumeric : ∀ character ∈ rest, character.isAlphanum = true)
      (longest : Text.EndsRun Char.isAlphanum following) :
      IsWord (first :: rest) following

/-- Two slashes and the rest of their line, its line feed included. -/
inductive IsComment : List Char → List Char → Prop where
  /-- The comment takes the line feed that ends it. -/
  | ended
      {body : List Char}
      (following : List Char)
      (inline : '\n' ∉ body) :
      IsComment ('/' :: '/' :: (body ++ ['\n'])) following
  /-- The text ends before the line does. -/
  | unended
      {body : List Char}
      (inline : '\n' ∉ body) :
      IsComment ('/' :: '/' :: body) []

/-- A character with which no lexeme of another kind begins. -/
structure IsUnexpected (character : Char) : Prop where
  notWhite : Text.isWhiteSpace character = false
  notAlphanumeric : character.isAlphanum = false
  notComma : character ≠ ','
  notEquals : character ≠ '='
  notSlash : character ≠ '/'

/-- The shape that an error demands of its lexeme. -/
def LexicalError.Shape : LexicalError → List Char → List Char → Prop
  | .unexpectedChar character, text, _ =>
      text = [character] ∧ IsUnexpected character
  | .unknownWord, text, following => IsWord text following
  | .malformedRegister, text, following => IsWord text following
  | .incompleteArrow, text, following =>
      text = ['='] ∧ following.head? ≠ some '>'
  | .loneSlash, text, following =>
      text = ['/'] ∧ following.head? ≠ some '/'
  | .overflow, text, following =>
      IsNumeral text following ∨ IsWord text following

/-- The shape that a kind demands of its lexeme and of what follows it. -/
def TokenKind.Shape : TokenKind → List Char → List Char → Prop
  | .opcode _, text, following => IsWord text following
  | .constant _, text, following => IsNumeral text following
  | .register _, text, following => IsWord text following
  | .comma, text, _ => text = [',']
  | .into, text, _ => text = ['=', '>']
  | .eof, text, following => text = [] ∧ following = []
  | .comment, text, following => IsComment text following
  | .newLine, text, _ => text = ['\n']
  | .error reason, text, following => reason.Shape text following

/-- The lexeme at the front of a text, read as far as it goes. -/
def longestLexeme : List Char → List Char
  | [] => []
  | first :: rest =>
      if first = '=' ∧ rest.head? = some '>' then
        ['=', '>']
      else if first = '/' ∧ rest.head? = some '/' then
        '/' :: (rest.takeWhile (· != '\n') ++
          (rest.dropWhile (· != '\n')).take 1)
      else if first.isDigit then
        first :: rest.takeWhile Char.isDigit
      else if first.isAlpha then
        first :: rest.takeWhile Char.isAlphanum
      else
        [first]

/-- The kind of a lexeme, which its text alone decides. -/
def TokenKind.ofLexeme : List Char → TokenKind
  | [] => .eof
  | first :: rest =>
      if first = '\n' then
        .newLine
      else if first = ',' then
        .comma
      else if first = '=' then
        if rest = ['>'] then .into else .error .incompleteArrow
      else if first = '/' then
        if rest = [] then .error .loneSlash else .comment
      else if first.isDigit then
        Scanner.numeralKind (String.ofList (first :: rest))
      else if first.isAlpha then
        Scanner.wordKind (String.ofList (first :: rest))
      else
        .error (.unexpectedChar first)

/-- A numeral is all that is read where it stands. -/
theorem IsNumeral.longestLexeme_append
    {text following : List Char}
    (numeral : IsNumeral text following) :
    longestLexeme (text ++ following) = text := by
  cases numeral with
  | run digit digits longest =>
      rename_i first rest
      obtain ⟨-, -, notEquals, notSlash⟩ :=
        Text.ne_of_isAlphanum (Text.isAlphanum_of_isDigit digit)
      simp only [List.cons_append, longestLexeme, notEquals, notSlash,
        digit, false_and, ↓reduceIte]
      rw [Text.takeWhile_run digits longest]

/-- A word is all that is read where it stands. -/
theorem IsWord.longestLexeme_append
    {text following : List Char}
    (word : IsWord text following) :
    longestLexeme (text ++ following) = text := by
  cases word with
  | run letter alphanumeric longest =>
      rename_i first rest
      obtain ⟨-, -, notEquals, notSlash⟩ :=
        Text.ne_of_isAlphanum (Text.isAlphanum_of_isAlpha letter)
      have notDigit : first.isDigit = false :=
        Text.isDigit_of_isAlpha letter
      simp only [List.cons_append, longestLexeme, notEquals, notSlash,
        notDigit, letter, false_and, Bool.false_eq_true, ↓reduceIte]
      rw [Text.takeWhile_run alphanumeric longest]

/-- An unexpected character is read alone. -/
theorem IsUnexpected.longestLexeme_cons
    {character : Char}
    (unexpected : IsUnexpected character)
    (following : List Char) :
    longestLexeme (character :: following) = [character] := by
  have classes := unexpected.notAlphanumeric
  simp only [Char.isAlphanum, Bool.or_eq_false_iff] at classes
  simp [longestLexeme, unexpected.notEquals, unexpected.notSlash, classes]

/-- Two slashes are read together with the rest of their line. -/
theorem longestLexeme_slashes
    (rest : List Char) :
    longestLexeme ('/' :: '/' :: rest) =
      '/' :: (('/' :: rest).takeWhile (· != '\n') ++
        (('/' :: rest).dropWhile (· != '\n')).take 1) := by
  simp [longestLexeme]

/-- A comment is all that is read where it stands. -/
theorem IsComment.longestLexeme_append
    {text following : List Char}
    (comment : IsComment text following) :
    longestLexeme (text ++ following) = text := by
  have inner
      {body : List Char}
      (inline : '\n' ∉ body) :
      ∀ character ∈ '/' :: body, (character != '\n') = true := by
    intro character member
    rw [bne_iff_ne]
    rintro rfl
    rcases List.mem_cons.mp member with isSlash | inBody
    · cases isSlash
    · exact inline inBody
  cases comment with
  | ended following inline =>
      rename_i body
      have stopped :
          Text.EndsRun (· != '\n') ('\n' :: following) := by
        intro character isHead
        cases isHead
        rfl
      have taken := Text.takeWhile_run (inner inline) stopped
      have dropped := Text.dropWhile_run (inner inline) stopped
      simp only [List.cons_append, List.append_assoc, List.nil_append,
        longestLexeme_slashes] at taken dropped ⊢
      rw [taken, dropped]
      rfl
  | unended inline =>
      rename_i body
      have taken :=
        Text.takeWhile_run (inner inline) (Text.endsRun_nil _)
      have dropped :=
        Text.dropWhile_run (inner inline) (Text.endsRun_nil _)
      rw [List.append_nil] at taken dropped ⊢
      rw [longestLexeme_slashes, taken, dropped]
      simp

/-- A lexeme with a shape is all that is read where it stands. -/
theorem TokenKind.Shape.longestLexeme_append
    {kind : TokenKind}
    {text following : List Char}
    (shape : kind.Shape text following) :
    longestLexeme (text ++ following) = text := by
  cases kind with
  | opcode opcode =>
      exact IsWord.longestLexeme_append shape
  | constant value =>
      exact IsNumeral.longestLexeme_append shape
  | register number =>
      exact IsWord.longestLexeme_append shape
  | comma =>
      obtain rfl := shape
      rfl
  | into =>
      obtain rfl := shape
      rfl
  | eof =>
      obtain ⟨rfl, rfl⟩ := shape
      rfl
  | comment =>
      exact IsComment.longestLexeme_append shape
  | newLine =>
      obtain rfl := shape
      rfl
  | error reason =>
      cases reason with
      | unexpectedChar character =>
          obtain ⟨rfl, unexpected⟩ := shape
          exact unexpected.longestLexeme_cons following
      | unknownWord =>
          exact IsWord.longestLexeme_append shape
      | malformedRegister =>
          exact IsWord.longestLexeme_append shape
      | incompleteArrow =>
          obtain ⟨rfl, incomplete⟩ := shape
          simp [longestLexeme, incomplete]
      | loneSlash =>
          obtain ⟨rfl, alone⟩ := shape
          simp [longestLexeme, alone]
      | overflow =>
          rcases shape with numeral | word
          · exact numeral.longestLexeme_append
          · exact word.longestLexeme_append

/-- At one place of a text there is at most one lexeme with a shape. -/
theorem TokenKind.Shape.unique
    {first second : TokenKind}
    {firstText firstRest secondText secondRest : List Char}
    (firstShape : first.Shape firstText firstRest)
    (secondShape : second.Shape secondText secondRest)
    (same : firstText ++ firstRest = secondText ++ secondRest) :
    firstText = secondText ∧ firstRest = secondRest := by
  have sameText : firstText = secondText := by
    rw [← firstShape.longestLexeme_append, same,
      secondShape.longestLexeme_append]
  subst sameText
  exact ⟨rfl, List.append_cancel_left same⟩

/-- Letters and digits are not blank. -/
theorem Text.isBlank_of_isAlphanum
    {character : Char}
    (alphanumeric : character.isAlphanum = true) :
    Text.isBlank character = false := by
  rw [Bool.eq_false_iff]
  intro blank
  have notAlphanumeric :=
    Text.isAlphanum_of_isWhiteSpace (Text.isWhiteSpace_of_isBlank blank)
  rw [alphanumeric] at notAlphanumeric
  cases notAlphanumeric

/-- A numeral begins with a character that is not blank. -/
theorem IsNumeral.exists_cons
    {text following : List Char}
    (numeral : IsNumeral text following) :
    ∃ first rest, text = first :: rest ∧ Text.isBlank first = false := by
  cases numeral with
  | run digit digits longest =>
      have alphanumeric := Text.isAlphanum_of_isDigit digit
      exact ⟨_, _, rfl, Text.isBlank_of_isAlphanum alphanumeric⟩

/-- A word begins with a character that is not blank. -/
theorem IsWord.exists_cons
    {text following : List Char}
    (word : IsWord text following) :
    ∃ first rest, text = first :: rest ∧ Text.isBlank first = false := by
  cases word with
  | run letter alphanumeric longest =>
      have alphanumeric := Text.isAlphanum_of_isAlpha letter
      exact ⟨_, _, rfl, Text.isBlank_of_isAlphanum alphanumeric⟩

/--
Every lexeme but that of the end has a first character, and this character is
not blank.
-/
theorem TokenKind.Shape.exists_cons
    {kind : TokenKind}
    {text following : List Char}
    (shape : kind.Shape text following)
    (inner : kind ≠ .eof) :
    ∃ first rest, text = first :: rest ∧ Text.isBlank first = false := by
  cases kind with
  | opcode opcode =>
      exact IsWord.exists_cons shape
  | constant value =>
      exact IsNumeral.exists_cons shape
  | register number =>
      exact IsWord.exists_cons shape
  | comma =>
      exact ⟨_, _, shape, by decide⟩
  | into =>
      exact ⟨_, _, shape, by decide⟩
  | eof =>
      exact absurd rfl inner
  | comment =>
      cases shape with
      | ended following inline =>
          exact ⟨_, _, rfl, by decide⟩
      | unended inline =>
          exact ⟨_, _, rfl, by decide⟩
  | newLine =>
      exact ⟨_, _, shape, by decide⟩
  | error reason =>
      cases reason with
      | unexpectedChar character =>
          obtain ⟨textShape, unexpected⟩ := shape
          refine ⟨_, _, textShape, ?_⟩
          simp [Text.isBlank, unexpected.notWhite]
      | unknownWord =>
          exact IsWord.exists_cons shape
      | malformedRegister =>
          exact IsWord.exists_cons shape
      | incompleteArrow =>
          exact ⟨_, _, shape.1, by decide⟩
      | loneSlash =>
          exact ⟨_, _, shape.1, by decide⟩
      | overflow =>
          rcases shape with numeral | word
          · exact numeral.exists_cons
          · exact word.exists_cons

/-- Blanks do not go on with a lexeme, not even with that of the end. -/
theorem TokenKind.Shape.endsRun_isBlank
    {kind : TokenKind}
    {text following : List Char}
    (shape : kind.Shape text following) :
    Text.EndsRun Text.isBlank (text ++ following) := by
  by_cases atEnd : kind = .eof
  · subst atEnd
    obtain ⟨rfl, rfl⟩ := shape
    exact Text.endsRun_nil Text.isBlank
  · obtain ⟨first, rest, rfl, unblank⟩ := shape.exists_cons atEnd
    exact Text.endsRun_cons unblank (rest ++ following)

/-- A numeral holds no line feed. -/
theorem IsNumeral.lineFeed_not_mem
    {text following : List Char}
    (numeral : IsNumeral text following) :
    '\n' ∉ text := by
  cases numeral with
  | run digit digits longest =>
      intro member
      rcases List.mem_cons.mp member with isFirst | inRest
      · subst isFirst
        cases digit
      · cases digits _ inRest

/-- A word holds no line feed. -/
theorem IsWord.lineFeed_not_mem
    {text following : List Char}
    (word : IsWord text following) :
    '\n' ∉ text := by
  cases word with
  | run letter alphanumeric longest =>
      intro member
      rcases List.mem_cons.mp member with isFirst | inRest
      · subst isFirst
        cases letter
      · cases alphanumeric _ inRest

/-- Only a lexeme that ends a line can hold a line feed. -/
theorem TokenKind.Shape.lineFeed_not_mem
    {kind : TokenKind}
    {text following : List Char}
    (shape : kind.Shape text following)
    (inner : kind.isLineEnd = false) :
    '\n' ∉ text := by
  cases kind with
  | opcode opcode =>
      exact IsWord.lineFeed_not_mem shape
  | constant value =>
      exact IsNumeral.lineFeed_not_mem shape
  | register number =>
      exact IsWord.lineFeed_not_mem shape
  | comma =>
      obtain rfl := shape
      decide
  | into =>
      obtain rfl := shape
      decide
  | eof =>
      cases inner
  | comment =>
      cases inner
  | newLine =>
      cases inner
  | error reason =>
      cases reason with
      | unexpectedChar character =>
          obtain ⟨rfl, unexpected⟩ := shape
          rw [List.mem_singleton]
          rintro rfl
          cases unexpected.notWhite
      | unknownWord =>
          exact IsWord.lineFeed_not_mem shape
      | malformedRegister =>
          exact IsWord.lineFeed_not_mem shape
      | incompleteArrow =>
          obtain ⟨rfl, incomplete⟩ := shape
          decide
      | loneSlash =>
          obtain ⟨rfl, alone⟩ := shape
          decide
      | overflow =>
          rcases shape with numeral | word
          · exact numeral.lineFeed_not_mem
          · exact word.lineFeed_not_mem

/--
A comment holds one line feed, its last character, unless it ends where the
text ends.
-/
theorem IsComment.count_lineFeed
    {text following : List Char}
    (comment : IsComment text following) :
    text.count '\n' = 1 ∨ text.count '\n' = 0 ∧ following = [] := by
  cases comment with
  | ended following inline =>
      left
      simp [List.count_eq_zero_of_not_mem inline]
  | unended inline =>
      right
      simp [List.count_eq_zero_of_not_mem inline]

/-- Whatever a numeral denotes, its kind demands a numeral. -/
theorem IsNumeral.shape_numeralKind
    {text following : List Char}
    (numeral : IsNumeral text following)
    (lexeme : String) :
    (Scanner.numeralKind lexeme).Shape text following := by
  unfold Scanner.numeralKind
  split
  · exact numeral
  · exact Or.inl numeral

/-- Whatever a word spells, its kind demands a word. -/
theorem IsWord.shape_wordKind
    {text following : List Char}
    (word : IsWord text following)
    (lexeme : String) :
    (Scanner.wordKind lexeme).Shape text following := by
  unfold Scanner.wordKind Scanner.registerKind
  split
  · exact word
  split
  · split
    · exact word
    split
    · exact word
    split
    · exact word
    · exact Or.inr word
  · exact word

/-- The kind of a numeral is decided by its value. -/
theorem IsNumeral.ofLexeme_eq
    {text following : List Char}
    (numeral : IsNumeral text following) :
    TokenKind.ofLexeme text =
      Scanner.numeralKind (String.ofList text) := by
  cases numeral with
  | run digit digits longest =>
      rename_i first rest
      obtain ⟨notLineFeed, notComma, notEquals, notSlash⟩ :=
        Text.ne_of_isAlphanum (Text.isAlphanum_of_isDigit digit)
      simp only [TokenKind.ofLexeme, notLineFeed, notComma, notEquals,
        notSlash, digit, ↓reduceIte]

/-- The kind of a word is decided by its spelling. -/
theorem IsWord.ofLexeme_eq
    {text following : List Char}
    (word : IsWord text following) :
    TokenKind.ofLexeme text = Scanner.wordKind (String.ofList text) := by
  cases word with
  | run letter alphanumeric longest =>
      rename_i first rest
      obtain ⟨notLineFeed, notComma, notEquals, notSlash⟩ :=
        Text.ne_of_isAlphanum (Text.isAlphanum_of_isAlpha letter)
      have notDigit : first.isDigit = false :=
        Text.isDigit_of_isAlpha letter
      simp only [TokenKind.ofLexeme, notLineFeed, notComma, notEquals,
        notSlash, notDigit, letter, Bool.false_eq_true, ↓reduceIte]

end Iloc
