import Iloc.Proofs.Scanner.Segmentation

namespace Iloc

/-!
# Joining texts

The lexemes of a text are also lexemes of a longer text that begins with it,
provided that the longer text does not go on in the middle of a lexeme.  At the
end of a line it never does, so a text can be scanned one line at a time.
-/

namespace Text

/-- The first character of a text continues no lexeme at the end of another. -/
def Breaks (text next : List Char) : Prop :=
  ∀ character ∈ next.head?,
    character.isAlphanum = false ∧ character ≠ '>' ∧
      (character = '/' → text.getLast? ≠ some '/')

theorem EndsRun.append
    {condition : Char → Bool}
    {following next : List Char}
    (ended : EndsRun condition following)
    (breaks : following = [] → EndsRun condition next) :
    EndsRun condition (following ++ next) := by
  cases following with
  | nil =>
      exact breaks rfl
  | cons first rest =>
      exact ended

namespace Breaks

variable {text next : List Char}

theorem endsRun_isAlphanum
    (breaks : Breaks text next) :
    EndsRun Char.isAlphanum next := by
  intro character isHead
  exact (breaks character isHead).1

theorem endsRun_isDigit
    (breaks : Breaks text next) :
    EndsRun Char.isDigit next := by
  intro character isHead
  have notAlphanumeric := (breaks character isHead).1
  rw [Char.isAlphanum, Bool.or_eq_false_iff] at notAlphanumeric
  exact notAlphanumeric.2

/-- A line feed ends every lexeme before it. -/
theorem lineFeed
    (text next : List Char) :
    Breaks text ('\n' :: next) := by
  intro character isHead
  obtain rfl := Option.some.inj isHead
  exact ⟨by decide, by decide, by simp⟩

/-- A comment ends every lexeme before it but that of a slash. -/
theorem slash
    (next : List Char)
    (noSlash : text.getLast? ≠ some '/') :
    Breaks text ('/' :: next) := by
  intro character isHead
  obtain rfl := Option.some.inj isHead
  exact ⟨by decide, by decide, fun _ => noSlash⟩

/-- What ends a text ends every text that it ends. -/
theorem suffix
    {before : List Char}
    (breaks : Breaks (before ++ text) next) :
    Breaks text next := by
  intro character isHead
  obtain ⟨notAlphanumeric, notBracket, noSlash⟩ :=
    breaks character isHead
  refine ⟨notAlphanumeric, notBracket, ?_⟩
  intro isSlash endsInSlash
  apply noSlash isSlash
  rw [List.getLast?_append, endsInSlash]
  rfl

end Breaks

end Text

section append

variable {text following next : List Char}

theorem IsWord.append
    (word : IsWord text following)
    (breaks : following = [] → Text.Breaks text next) :
    IsWord text (following ++ next) := by
  cases word with
  | run letter alphanumeric longest =>
      refine .run letter alphanumeric (longest.append ?_)
      intro atEnd
      exact (breaks atEnd).endsRun_isAlphanum

theorem IsNumeral.append
    (numeral : IsNumeral text following)
    (breaks : following = [] → Text.Breaks text next) :
    IsNumeral text (following ++ next) := by
  cases numeral with
  | run digit digits longest =>
      refine .run digit digits (longest.append ?_)
      intro atEnd
      exact (breaks atEnd).endsRun_isDigit

theorem IsComment.append
    (comment : IsComment text following)
    (closed : '\n' ∈ text) :
    IsComment text (following ++ next) := by
  cases comment with
  | ended following inline =>
      exact .ended _ inline
  | unended inline =>
      simp [inline] at closed

/-- A lexeme keeps its shape if nothing behind it comes to continue it. -/
theorem TokenKind.Shape.append
    {kind : TokenKind}
    (shape : kind.Shape text following)
    (closed : kind.isLineEnd = false ∨ '\n' ∈ text)
    (breaks : following = [] → Text.Breaks text next) :
    kind.Shape text (following ++ next) := by
  have head_ne
      {character : Char}
      (other : following.head? ≠ some character)
      (otherNext : following = [] → next.head? ≠ some character) :
      (following ++ next).head? ≠ some character := by
    cases following with
    | nil =>
        exact otherNext rfl
    | cons first rest =>
        exact other
  cases kind with
  | opcode opcode =>
      exact IsWord.append shape breaks
  | constant value =>
      exact IsNumeral.append shape breaks
  | register number =>
      exact IsWord.append shape breaks
  | comma =>
      exact shape
  | into =>
      exact shape
  | eof =>
      obtain ⟨rfl, -⟩ := shape
      simp [TokenKind.isLineEnd] at closed
  | comment =>
      rcases closed with absurdity | closed
      · cases absurdity
      · exact IsComment.append shape closed
  | newLine =>
      exact shape
  | error reason =>
      cases reason with
      | unexpectedChar character =>
          exact shape
      | unknownWord =>
          exact IsWord.append shape breaks
      | malformedRegister =>
          exact IsWord.append shape breaks
      | incompleteArrow =>
          obtain ⟨textShape, incomplete⟩ := shape
          refine ⟨textShape, head_ne incomplete ?_⟩
          intro atEnd isHead
          exact (breaks atEnd '>' isHead).2.1 rfl
      | loneSlash =>
          obtain ⟨rfl, alone⟩ := shape
          refine ⟨rfl, head_ne alone ?_⟩
          intro atEnd isHead
          exact (breaks atEnd '/' isHead).2.2 rfl rfl
      | overflow =>
          rcases shape with numeral | word
          · exact Or.inl (numeral.append breaks)
          · exact Or.inr (word.append breaks)

end append

namespace Tiling

/-- The last piece of a tiling is the end of the text, and no other is. -/
theorem exists_body
    {characters : List Char}
    {pieces : List Piece}
    (tiling : Tiling characters pieces) :
    ∃ body gap,
      pieces = body ++ [⟨gap, .eof, []⟩] ∧
        (∀ piece ∈ body, piece.kind ≠ .eof) ∧
        ∀ character ∈ gap, Text.isBlank character = true := by
  induction tiling with
  | @ended gap blank =>
      exact ⟨[], gap, rfl, List.forall_mem_nil _, blank⟩
  | @piece gap text rest kind pieces blank inner shape tail
      inductionHypothesis =>
      obtain ⟨body, lastGap, rfl, allInner, lastBlank⟩ :=
        inductionHypothesis
      refine ⟨⟨gap, kind, text⟩ :: body, lastGap, rfl, ?_, lastBlank⟩
      exact List.forall_mem_cons.mpr ⟨inner, allInner⟩

/-- The lexeme of every piece stands in the text and has its shape there. -/
theorem shape_of_mem
    {characters : List Char}
    {pieces : List Piece}
    (tiling : Tiling characters pieces) :
    ∀ piece ∈ pieces, ∃ before following,
      characters = before ++ (piece.text ++ following) ∧
        piece.kind.Shape piece.text following := by
  induction tiling with
  | @ended gap blank =>
      intro piece member
      rw [List.mem_singleton.mp member]
      exact ⟨gap, [], (List.append_nil gap).symm, rfl, rfl⟩
  | @piece gap text rest kind pieces blank inner shape tail
      inductionHypothesis =>
      intro piece member
      rcases List.mem_cons.mp member with rfl | inTail
      · exact ⟨gap, rest, rfl, shape⟩
      · obtain ⟨before, following, rfl, pieceShape⟩ :=
          inductionHypothesis piece inTail
        refine ⟨gap ++ (text ++ before), following, ?_, pieceShape⟩
        simp only [List.append_assoc]

/--
The pieces of a text and those of its continuation tile the two together.  The
blanks at the end of the text belong to the first gap of the continuation.
-/
theorem append
    {characters next gap : List Char}
    {body later : List Piece}
    (tiling : Tiling characters (body ++ [⟨gap, .eof, []⟩]))
    (closed :
      ∀ piece ∈ body,
        piece.kind.isLineEnd = false ∨ '\n' ∈ piece.text)
    (breaks : Text.Breaks characters next)
    (rest : Tiling (gap ++ next) later) :
    Tiling (characters ++ next) (body ++ later) := by
  generalize shape : body ++ [⟨gap, .eof, []⟩] = pieces at tiling
  induction tiling generalizing body with
  | ended blank =>
      cases body with
      | nil =>
          cases shape
          exact rest
      | cons first body =>
          simp at shape
  | @piece pieceGap text following kind pieces blank inner pieceShape tail
      inductionHypothesis =>
      cases body with
      | nil =>
          cases shape
          exact absurd rfl inner
      | cons first body =>
          obtain ⟨rfl, tailShape⟩ := List.cons.inj shape
          obtain ⟨firstClosed, bodyClosed⟩ :=
            List.forall_mem_cons.mp closed
          rw [← List.append_assoc] at breaks
          have breaksTail := breaks.suffix
          have breaksText (atEnd : following = []) :
              Text.Breaks text next := by
            rw [atEnd, List.append_nil] at breaks
            exact breaks.suffix
          have wider := pieceShape.append firstClosed breaksText
          have tailTiling :=
            inductionHypothesis bodyClosed breaksTail tailShape
          have whole := Tiling.piece blank inner wider tailTiling
          simpa only [List.append_assoc, List.cons_append] using whole

end Tiling

end Iloc
