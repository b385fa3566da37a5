import Iloc.Scanner.Basic

namespace Iloc.Scanner

/-!
# Progress of the scanner

Every reading either returns the end token or takes at least one character.
This bounds every loop that reads tokens until some kind of them comes up,
because the end token is the one that such a loop always stops at.
-/

/-- Reading one character takes exactly that character. -/
theorem rest_of_consume?
    {scanner later : Scanner}
    {character : Char}
    (consumed : scanner.consume? = some (character, later)) :
    scanner.rest = character :: later.rest := by
  unfold consume? at consumed
  split at consumed
  · cases consumed
  · rename_i first rest restShape
    cases consumed
    exact restShape

/-- Nothing is left exactly when no character can be read. -/
theorem rest_of_consume?_eq_none
    {scanner : Scanner}
    (ended : scanner.consume? = none) :
    scanner.rest = [] := by
  unfold consume? at ended
  split at ended
  · assumption
  · cases ended

/-- A conditional reading never puts a character back. -/
theorem rest_consumeWhile_suffix
    (scanner : Scanner)
    (condition : Char → Bool) :
    (scanner.consumeWhile condition).rest <:+ scanner.rest :=
  List.dropWhile_suffix condition

/-- What follows an equals sign is read without putting anything back. -/
theorem rest_finishArrow_suffix
    (scanner : Scanner) :
    scanner.finishArrow.2.rest <:+ scanner.rest := by
  unfold finishArrow
  split
  · rename_i later consumed
    rw [rest_of_consume? consumed]
    exact List.suffix_cons _ _
  · exact List.suffix_rfl

/-- What follows a slash is read without putting anything back. -/
theorem rest_finishComment_suffix
    (scanner : Scanner) :
    scanner.finishComment.2.rest <:+ scanner.rest := by
  unfold finishComment
  split
  · have body :=
      rest_consumeWhile_suffix scanner (· != '\n')
    dsimp only
    split
    · rename_i character later consumed
      rw [rest_of_consume? consumed] at body
      exact (List.suffix_cons _ _).trans body
    · exact body
  · exact List.suffix_rfl

/-- The reading that the first character of a lexeme decides on. -/
theorem rest_readKind_suffix
    {scanner later : Scanner}
    {character : Char}
    (consumed : scanner.consume? = some (character, later)) :
    scanner.readKind.2.rest <:+ later.rest := by
  unfold readKind
  rw [consumed]
  dsimp only
  split
  · exact List.suffix_rfl
  split
  · exact List.suffix_rfl
  split
  · exact rest_finishArrow_suffix later
  split
  · exact rest_finishComment_suffix later
  split
  · exact rest_consumeWhile_suffix later Char.isDigit
  split
  · exact rest_consumeWhile_suffix later Char.isAlphanum
  · exact List.suffix_rfl

/-- A reading that finds no character finds the end, and stays where it is. -/
theorem readKind_of_consume?_eq_none
    {scanner : Scanner}
    (ended : scanner.consume? = none) :
    scanner.readKind = (.eof, scanner) := by
  unfold readKind
  rw [ended]

/-- Skipping blanks puts nothing back. -/
theorem rest_skipBlanks_suffix
    (scanner : Scanner) :
    scanner.skipBlanks.rest <:+ scanner.rest :=
  rest_consumeWhile_suffix scanner Text.isBlank

/-- No token puts a character back. -/
theorem rest_next_suffix
    (scanner : Scanner) :
    scanner.next.2.rest <:+ scanner.rest := by
  have read :
      scanner.skipBlanks.readKind.2.rest <:+ scanner.skipBlanks.rest := by
    cases consumption : scanner.skipBlanks.consume? with
    | none =>
        have unchanged :
            scanner.skipBlanks.readKind.2.rest = scanner.skipBlanks.rest :=
          congrArg (·.2.rest) (readKind_of_consume?_eq_none consumption)
        exact ⟨[], unchanged⟩
    | some result =>
        rw [rest_of_consume? consumption]
        exact
          (rest_readKind_suffix consumption).trans
            (List.suffix_cons _ _)
  exact read.trans (rest_skipBlanks_suffix scanner)

/-- Every token but the end token takes at least one character. -/
theorem length_rest_next_lt
    (scanner : Scanner)
    (inner : scanner.next.1.kind ≠ .eof) :
    scanner.next.2.rest.length < scanner.rest.length := by
  have skipped :=
    (rest_skipBlanks_suffix scanner).length_le
  cases consumption : scanner.skipBlanks.consume? with
  | none =>
      refine absurd ?_ inner
      show scanner.skipBlanks.readKind.1 = .eof
      rw [readKind_of_consume?_eq_none consumption]
  | some result =>
      have read :
          scanner.next.2.rest.length ≤ result.2.rest.length :=
        (rest_readKind_suffix consumption).length_le
      rw [rest_of_consume? consumption, List.length_cons] at skipped
      omega

/-- A token never lengthens what is left. -/
theorem length_rest_next_le
    (scanner : Scanner) :
    scanner.next.2.rest.length ≤ scanner.rest.length :=
  (rest_next_suffix scanner).length_le

end Iloc.Scanner
