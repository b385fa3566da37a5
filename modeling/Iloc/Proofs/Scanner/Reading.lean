import Iloc.Proofs.Scanner.Lexeme
import Mathlib.Data.String.Basic

namespace Iloc.Scanner

/-!
# What one reading does

A scanner knows its place as a list of characters and as a pair of byte
offsets.  The two agree in every scanner that readings lead to: the offsets
cut out exactly the characters read since the last blanks were skipped.

One reading skips blanks, takes the lexeme that stands after them, and counts
the line feeds in it.  Nothing is read twice and nothing is left out.
-/

/--
The offsets of a scanner stand where its characters do: it has read `earlier`
and then the lexeme in progress.
-/
structure Aligned
    (scanner : Scanner)
    (earlier lexeme : List Char) :
    Prop where
  source_eq :
    scanner.source = String.ofList (earlier ++ lexeme ++ scanner.rest)
  start_eq : scanner.start = ⟨String.utf8Len earlier⟩
  position_eq : scanner.position = ⟨String.utf8Len (earlier ++ lexeme)⟩

/-- Adding characters to an offset adds their sizes. -/
theorem foldl_position
    (characters : List Char)
    (size : Nat) :
    characters.foldl (· + ·) (⟨size⟩ : String.Pos.Raw) =
      ⟨size + String.utf8Len characters⟩ := by
  induction characters generalizing size with
  | nil =>
      rfl
  | cons first rest inductionHypothesis =>
      rw [List.foldl_cons]
      have moved :
          (⟨size⟩ : String.Pos.Raw) + first = ⟨size + first.utf8Size⟩ :=
        rfl
      rw [moved, inductionHypothesis]
      simp only [String.utf8Len_cons, String.Pos.Raw.mk.injEq]
      omega

namespace Aligned

/-- Both offsets of a new scanner stand before the first character. -/
theorem ofSource
    (source : String) :
    (Scanner.ofSource source).Aligned [] [] where
  source_eq := by
    simp [Scanner.ofSource]
  start_eq := rfl
  position_eq := rfl

variable {scanner later : Scanner}
variable {earlier lexeme : List Char}

/-- Reading one character adds it to the lexeme. -/
theorem consume?
    {character : Char}
    (aligned : scanner.Aligned earlier lexeme)
    (consumed : scanner.consume? = some (character, later)) :
    later.Aligned earlier (lexeme ++ [character]) := by
  unfold Scanner.consume? at consumed
  split at consumed
  · cases consumed
  · rename_i first rest restShape
    cases consumed
    refine ⟨?_, aligned.start_eq, ?_⟩
    · simp [aligned.source_eq, restShape]
    · have moved :
          scanner.position + character =
            ⟨String.utf8Len (earlier ++ lexeme) + character.utf8Size⟩ := by
        rw [aligned.position_eq]
        rfl
      simp only [moved, ← List.append_assoc, String.utf8Len_append,
        String.utf8Len_cons, String.utf8Len_nil, Nat.zero_add]

/-- A conditional reading adds to the lexeme what it takes. -/
theorem consumeWhile
    (aligned : scanner.Aligned earlier lexeme)
    (condition : Char → Bool) :
    (scanner.consumeWhile condition).Aligned earlier
      (lexeme ++ scanner.rest.takeWhile condition) where
  source_eq := by
    simp [Scanner.consumeWhile, aligned.source_eq]
  start_eq := aligned.start_eq
  position_eq := by
    simp only [Scanner.consumeWhile, aligned.position_eq, foldl_position,
      String.utf8Len_append, Nat.add_assoc]

/-- After blanks have been skipped a new lexeme is in progress. -/
theorem skipBlanks
    (aligned : scanner.Aligned earlier lexeme) :
    scanner.skipBlanks.Aligned
      (earlier ++ lexeme ++ scanner.rest.takeWhile Text.isBlank) [] := by
  have skipped := aligned.consumeWhile Text.isBlank
  rw [List.append_assoc]
  refine ⟨?_, skipped.position_eq, ?_⟩
  · rw [List.append_nil]
    exact skipped.source_eq
  · rw [List.append_nil]
    exact skipped.position_eq

/-- Counting a line moves no offset. -/
theorem nextLine
    (aligned : scanner.Aligned earlier lexeme) :
    scanner.nextLine.Aligned earlier lexeme where
  source_eq := aligned.source_eq
  start_eq := aligned.start_eq
  position_eq := aligned.position_eq

/-- The offsets cut out the characters of the lexeme. -/
theorem lexeme_eq
    (aligned : scanner.Aligned earlier lexeme) :
    scanner.lexeme = String.ofList lexeme := by
  unfold Scanner.lexeme
  rw [aligned.source_eq, aligned.start_eq, aligned.position_eq,
    String.utf8Len_append, String.extract_of_valid]

end Aligned

/--
A reading that has begun a lexeme completes it to `text`, and its outcome is
the kind of the lexeme and the scanner behind it.
-/
structure Completes
    (scanner : Scanner)
    (begun text : List Char)
    (outcome : TokenKind × Scanner) :
    Prop where
  rest_eq : begun ++ scanner.rest = text ++ outcome.2.rest
  shape : outcome.1.Shape text outcome.2.rest
  line_eq :
    outcome.2.line = scanner.line + UInt32.ofNat (text.count '\n')
  aligned :
    ∀ {earlier}, scanner.Aligned earlier begun →
      outcome.2.Aligned earlier text
  kind_eq :
    ∀ {earlier}, scanner.Aligned earlier begun →
      outcome.1 = .ofLexeme text

/-- Reading one character stays on its line. -/
theorem line_of_consume?
    {scanner later : Scanner}
    {character : Char}
    (consumed : scanner.consume? = some (character, later)) :
    later.line = scanner.line := by
  unfold consume? at consumed
  split at consumed
  · cases consumed
  · cases consumed
    rfl

/-- The character that can be read is the first of those left. -/
theorem consume?_of_rest
    {scanner : Scanner}
    {character : Char}
    {rest : List Char}
    (restShape : scanner.rest = character :: rest) :
    ∃ later, scanner.consume? = some (character, later) := by
  unfold consume?
  rw [restShape]
  exact ⟨_, rfl⟩

/-- An equals sign is completed to an arrow if a bracket follows it. -/
theorem completes_finishArrow
    (scanner : Scanner) :
    ∃ text, scanner.Completes ['='] text scanner.finishArrow := by
  unfold finishArrow
  split
  · rename_i later consumed
    have restShape := rest_of_consume? consumed
    refine ⟨['=', '>'], ?_, rfl, ?_, ?_, fun _ => rfl⟩
    · simp [restShape]
    · simp [line_of_consume? consumed]
    · intro earlier aligned
      exact aligned.consume? consumed
  · rename_i incomplete
    have notBracket : scanner.rest.head? ≠ some '>' := by
      intro isHead
      obtain ⟨rest, restShape⟩ :=
        List.head?_eq_some_iff.mp isHead
      obtain ⟨later, consumed⟩ := consume?_of_rest restShape
      exact incomplete later consumed
    exact ⟨['='], rfl, ⟨rfl, notBracket⟩, by simp, id, fun _ => rfl⟩

/-- Behind the first slash of a comment: the second one, and the body. -/
theorem exists_body
    {scanner : Scanner}
    (isSlash : scanner.rest.head? = some '/') :
    ∃ body,
      '\n' ∉ body ∧
        scanner.rest.takeWhile (· != '\n') = '/' :: body ∧
        scanner.rest =
          '/' :: (body ++ (scanner.consumeWhile (· != '\n')).rest) := by
  obtain ⟨rest, restShape⟩ := List.head?_eq_some_iff.mp isSlash
  have taken :
      scanner.rest.takeWhile (· != '\n') =
        '/' :: rest.takeWhile (· != '\n') := by
    rw [restShape]
    rfl
  refine ⟨rest.takeWhile (· != '\n'), ?_, taken, ?_⟩
  · intro member
    have kept := List.all_eq_true.mp List.all_takeWhile _ member
    simp at kept
  · rw [← List.cons_append, ← taken]
    exact List.takeWhile_append_dropWhile.symm

/-- Only a line feed can stand behind the body of a comment. -/
theorem eq_lineFeed_of_consume?
    {scanner later : Scanner}
    {character : Char}
    (consumed :
      (scanner.consumeWhile (· != '\n')).consume? =
        some (character, later)) :
    character = '\n' := by
  have stopped := Text.endsRun_dropWhile (· != '\n') scanner.rest
  have behind :
      scanner.rest.dropWhile (· != '\n') = character :: later.rest :=
    rest_of_consume? consumed
  rw [behind] at stopped
  have refused := stopped character rfl
  simpa using refused

/-- A comment takes the line feed that ends its line, and counts the line. -/
theorem completes_endedComment
    {scanner later : Scanner}
    (isSlash : scanner.rest.head? = some '/')
    (consumed :
      (scanner.consumeWhile (· != '\n')).consume? =
        some ('\n', later)) :
    ∃ text,
      scanner.Completes ['/'] text (.comment, later.nextLine) := by
  obtain ⟨body, inline, taken, restShape⟩ := exists_body isSlash
  refine ⟨'/' :: '/' :: (body ++ ['\n']), ?_, .ended _ inline, ?_, ?_,
    fun _ => rfl⟩
  · rw [restShape, rest_of_consume? consumed]
    simp [nextLine]
  · have counted :
        ('/' :: '/' :: (body ++ ['\n'])).count '\n' = 1 := by
      simp [List.count_eq_zero_of_not_mem inline]
    have sameLine :
        later.line = (scanner.consumeWhile (· != '\n')).line :=
      line_of_consume? consumed
    rw [counted]
    exact congrArg (· + 1) sameLine
  · intro earlier aligned
    have consumedBody :=
      (aligned.consumeWhile (· != '\n')).consume? consumed
    rw [taken] at consumedBody
    exact consumedBody.nextLine

/-- A comment in the last line goes on to the end of the text. -/
theorem completes_unendedComment
    {scanner : Scanner}
    (isSlash : scanner.rest.head? = some '/')
    (ended :
      (scanner.consumeWhile (· != '\n')).consume? = none) :
    ∃ text,
      scanner.Completes ['/'] text
        (.comment, scanner.consumeWhile (· != '\n')) := by
  obtain ⟨body, inline, taken, restShape⟩ := exists_body isSlash
  have afterBody := rest_of_consume?_eq_none ended
  refine ⟨'/' :: '/' :: body, ?_, ?_, ?_, ?_, fun _ => rfl⟩
  · rw [restShape]
    rfl
  · show IsComment _ (scanner.consumeWhile (· != '\n')).rest
    rw [afterBody]
    exact .unended inline
  · simp [List.count_eq_zero_of_not_mem inline, consumeWhile]
  · intro earlier aligned
    have consumedBody := aligned.consumeWhile (· != '\n')
    rw [taken] at consumedBody
    exact consumedBody

/-- A slash is completed to a comment if another slash follows it. -/
theorem completes_finishComment
    (scanner : Scanner) :
    ∃ text, scanner.Completes ['/'] text scanner.finishComment := by
  unfold finishComment
  split
  · rename_i isSlash
    dsimp only
    split
    · rename_i character later consumed
      obtain rfl := eq_lineFeed_of_consume? consumed
      exact completes_endedComment isSlash consumed
    · rename_i ended
      exact completes_unendedComment isSlash ended
  · rename_i alone
    exact ⟨['/'], rfl, ⟨rfl, alone⟩, by simp, id, fun _ => rfl⟩

/-- A first digit is completed to a numeral. -/
theorem completes_finishNumeral
    (scanner : Scanner)
    {first : Char}
    (digit : first.isDigit = true) :
    ∃ text, scanner.Completes [first] text scanner.finishNumeral := by
  have numeral :
      IsNumeral (first :: scanner.rest.takeWhile Char.isDigit)
        (scanner.rest.dropWhile Char.isDigit) :=
    .run digit (List.all_eq_true.mp List.all_takeWhile)
      (Text.endsRun_dropWhile _ _)
  refine ⟨first :: scanner.rest.takeWhile Char.isDigit,
    ?_, numeral.shape_numeralKind _, ?_, ?_, ?_⟩
  · simp [finishNumeral, consumeWhile]
  · simp [finishNumeral, consumeWhile,
      List.count_eq_zero_of_not_mem numeral.lineFeed_not_mem]
  · intro earlier aligned
    exact aligned.consumeWhile Char.isDigit
  · intro earlier aligned
    have lexeme := (aligned.consumeWhile Char.isDigit).lexeme_eq
    unfold finishNumeral
    dsimp only
    rw [lexeme]
    exact numeral.ofLexeme_eq.symm

/-- A first letter is completed to a word. -/
theorem completes_finishWord
    (scanner : Scanner)
    {first : Char}
    (letter : first.isAlpha = true) :
    ∃ text, scanner.Completes [first] text scanner.finishWord := by
  have word :
      IsWord (first :: scanner.rest.takeWhile Char.isAlphanum)
        (scanner.rest.dropWhile Char.isAlphanum) :=
    .run letter (List.all_eq_true.mp List.all_takeWhile)
      (Text.endsRun_dropWhile _ _)
  refine ⟨first :: scanner.rest.takeWhile Char.isAlphanum,
    ?_, word.shape_wordKind _, ?_, ?_, ?_⟩
  · simp [finishWord, consumeWhile]
  · simp [finishWord, consumeWhile,
      List.count_eq_zero_of_not_mem word.lineFeed_not_mem]
  · intro earlier aligned
    exact aligned.consumeWhile Char.isAlphanum
  · intro earlier aligned
    have lexeme := (aligned.consumeWhile Char.isAlphanum).lexeme_eq
    unfold finishWord
    dsimp only
    rw [lexeme]
    exact word.ofLexeme_eq.symm

/-- A reading that starts with one character goes on behind it. -/
theorem Completes.of_consume?
    {ready scanner : Scanner}
    {first : Char}
    {text : List Char}
    {outcome : TokenKind × Scanner}
    (consumed : ready.consume? = some (first, scanner))
    (completes : scanner.Completes [first] text outcome) :
    ready.Completes [] text outcome where
  rest_eq := by
    rw [rest_of_consume? consumed]
    exact completes.rest_eq
  shape := completes.shape
  line_eq := by
    rw [← line_of_consume? consumed]
    exact completes.line_eq
  aligned aligned := completes.aligned (aligned.consume? consumed)
  kind_eq aligned := completes.kind_eq (aligned.consume? consumed)

/-- Every reading of a lexeme completes one, unless a blank is ahead. -/
theorem completes_readKind
    (ready : Scanner)
    (unblank : Text.EndsRun Text.isBlank ready.rest) :
    ∃ text, ready.Completes [] text ready.readKind := by
  unfold readKind
  split
  · rename_i ended
    have restShape := rest_of_consume?_eq_none ended
    exact ⟨[], rfl, ⟨rfl, restShape⟩, by simp, id, fun _ => rfl⟩
  · rename_i first scanner consumed
    have restShape := rest_of_consume? consumed
    have firstUnblank : Text.isBlank first = false := by
      rw [restShape] at unblank
      exact unblank first rfl
    suffices completed :
        ∃ text, scanner.Completes [first] text _ by
      obtain ⟨text, completes⟩ := completed
      exact ⟨text, completes.of_consume? consumed⟩
    split
    · rename_i isLineFeed
      subst isLineFeed
      refine ⟨['\n'], rfl, rfl, rfl, ?_, fun _ => rfl⟩
      intro earlier aligned
      exact aligned.nextLine
    split
    · rename_i isComma
      subst isComma
      exact ⟨[','], rfl, rfl, by simp, id, fun _ => rfl⟩
    split
    · rename_i isEquals
      subst isEquals
      exact scanner.completes_finishArrow
    split
    · rename_i isSlash
      subst isSlash
      exact scanner.completes_finishComment
    split
    · rename_i digit
      exact scanner.completes_finishNumeral digit
    split
    · rename_i letter
      exact scanner.completes_finishWord letter
    · rename_i notLineFeed notComma notEquals notSlash notDigit notLetter
      have notWhite : Text.isWhiteSpace first = false := by
        simpa [Text.isBlank, notLineFeed] using firstUnblank
      have notAlphanumeric : first.isAlphanum = false := by
        simp [Char.isAlphanum, notDigit, notLetter]
      refine ⟨[first], rfl,
        ⟨rfl, notWhite, notAlphanumeric, notComma, notEquals, notSlash⟩,
        ?_, id, ?_⟩
      · simp [notLineFeed]
      · intro earlier aligned
        simp [TokenKind.ofLexeme, notLineFeed, notComma, notEquals,
          notSlash, notDigit, notLetter]

/--
One reading skips `gap`, takes the lexeme `text`, and goes on behind it.  The
token that it returns bears the line that the lexeme starts on.
-/
structure Reads
    (scanner : Scanner)
    (gap text : List Char) :
    Prop where
  rest_eq : scanner.rest = gap ++ (text ++ scanner.next.2.rest)
  blank : ∀ character ∈ gap, Text.isBlank character = true
  shape : scanner.next.1.kind.Shape text scanner.next.2.rest
  line_eq :
    scanner.next.2.line = scanner.line + UInt32.ofNat (text.count '\n')
  aligned :
    ∀ {earlier lexeme}, scanner.Aligned earlier lexeme →
      scanner.next.2.Aligned (earlier ++ lexeme ++ gap) text
  kind_eq :
    ∀ {earlier lexeme}, scanner.Aligned earlier lexeme →
      scanner.next.1.kind = .ofLexeme text

/-- Every reading skips some blanks and takes some lexeme. -/
theorem exists_reads
    (scanner : Scanner) :
    ∃ gap text, scanner.Reads gap text := by
  have unblank : Text.EndsRun Text.isBlank scanner.skipBlanks.rest :=
    Text.endsRun_dropWhile Text.isBlank scanner.rest
  obtain ⟨text, completes⟩ :=
    scanner.skipBlanks.completes_readKind unblank
  refine ⟨scanner.rest.takeWhile Text.isBlank, text, ?_⟩
  constructor
  · have ahead :
        scanner.rest.dropWhile Text.isBlank = text ++ scanner.next.2.rest :=
      completes.rest_eq
    rw [← ahead, List.takeWhile_append_dropWhile]
  · exact List.all_eq_true.mp List.all_takeWhile
  · exact completes.shape
  · exact completes.line_eq
  · intro earlier lexeme aligned
    exact completes.aligned aligned.skipBlanks
  · intro earlier lexeme aligned
    exact completes.kind_eq aligned.skipBlanks

/-- A token bears the line of the scanner that reads it. -/
@[simp]
theorem line_next
    (scanner : Scanner) :
    scanner.next.1.line = scanner.line := rfl

end Iloc.Scanner
