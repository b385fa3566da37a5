import Iloc.Proofs.Scanner.Segmentation

namespace Iloc

/-!
# The stream of tokens

To a reader that never looks at the characters a scanner is a stream of tokens
with an end that repeats for ever, and a line number that grows as lines end.

The line number and the line feeds still ahead always add up to the same sum.
A comment that the end of the text ends is the one token that ends a line
without a line feed, and after it nothing but the end is left.
-/

/-- Whether a token begins a new line for the parser. -/
def Token.beginsLine (token : Token) : Bool :=
  token.kind = .newLine || token.kind = .comment

namespace Scanner

/-- The tokens that a scanner reads first. -/
def Ahead : Scanner → List Token → Prop
  | _, [] => True
  | scanner, token :: rest =>
      scanner.next.1 = token ∧ scanner.next.2.Ahead rest

/-- The scanner that stands behind some tokens. -/
def skip : Scanner → List Token → Scanner
  | scanner, [] => scanner
  | scanner, _ :: rest => scanner.next.2.skip rest

/-- Only the end of the text is left. -/
def AtEnd (scanner : Scanner) : Prop :=
  scanner.next.1.kind = .eof

/-- The line feeds among the characters still to be read. -/
def lineFeeds (scanner : Scanner) : Nat :=
  scanner.rest.count '\n'

variable {scanner : Scanner}

theorem ahead_append
    {first second : List Token} :
    scanner.Ahead (first ++ second) ↔
      scanner.Ahead first ∧ (scanner.skip first).Ahead second := by
  induction first generalizing scanner with
  | nil =>
      simp [Ahead, skip]
  | cons token rest inductionHypothesis =>
      simp only [List.cons_append, Ahead, skip, inductionHypothesis,
        and_assoc]

@[simp]
theorem skip_append
    (first second : List Token) :
    scanner.skip (first ++ second) = (scanner.skip first).skip second := by
  induction first generalizing scanner with
  | nil =>
      rfl
  | cons token rest inductionHypothesis =>
      exact inductionHypothesis

/-! ## The end of the text -/

theorem rest_next_of_atEnd
    (atEnd : scanner.AtEnd) :
    scanner.next.2.rest = [] := by
  obtain ⟨gap, text, reads⟩ := scanner.exists_reads
  have shape := reads.shape
  rw [atEnd] at shape
  exact shape.2

theorem line_next_of_atEnd
    (atEnd : scanner.AtEnd) :
    scanner.next.2.line = scanner.line := by
  obtain ⟨gap, text, reads⟩ := scanner.exists_reads
  have shape := reads.shape
  rw [atEnd] at shape
  rw [reads.line_eq, shape.1]
  exact UInt32.add_zero _

theorem atEnd_of_rest
    (restShape : scanner.rest = []) :
    scanner.AtEnd := by
  have ended : scanner.skipBlanks.consume? = none := by
    simp [consume?, skipBlanks, consumeWhile, restShape]
  simp only [AtEnd, next, readKind_of_consume?_eq_none ended]

/-- The end of the text is read again and again. -/
theorem atEnd_next
    (atEnd : scanner.AtEnd) :
    scanner.next.2.AtEnd :=
  atEnd_of_rest (rest_next_of_atEnd atEnd)

theorem atEnd_skip
    (atEnd : scanner.AtEnd)
    (tokens : List Token) :
    (scanner.skip tokens).AtEnd := by
  induction tokens generalizing scanner with
  | nil =>
      exact atEnd
  | cons token rest inductionHypothesis =>
      exact inductionHypothesis (atEnd_next atEnd)

theorem next_of_atEnd
    (atEnd : scanner.AtEnd) :
    scanner.next.1 = ⟨.eof, scanner.line⟩ := by
  rw [← atEnd, ← line_next]

theorem tokens_of_atEnd
    (atEnd : scanner.AtEnd) :
    scanner.tokens = [⟨.eof, scanner.line⟩] := by
  rw [tokens_of_eof atEnd, next_of_atEnd atEnd]

/-! ## Lines -/

theorem count_blanks
    {gap : List Char}
    (blank : ∀ character ∈ gap, Text.isBlank character = true) :
    gap.count '\n' = 0 := by
  apply List.count_eq_zero_of_not_mem
  intro member
  cases blank _ member

theorem lineFeeds_of_atEnd
    (atEnd : scanner.AtEnd) :
    scanner.lineFeeds = 0 := by
  obtain ⟨gap, text, reads⟩ := scanner.exists_reads
  have shape := reads.shape
  rw [atEnd] at shape
  simp [lineFeeds, reads.rest_eq, count_blanks reads.blank, shape.1,
    shape.2]

/-- The line feeds ahead are those of the next lexeme and those behind it. -/
theorem lineFeeds_eq
    {gap text : List Char}
    (reads : scanner.Reads gap text) :
    scanner.lineFeeds =
      text.count '\n' + scanner.next.2.lineFeeds := by
  simp [lineFeeds, reads.rest_eq, count_blanks reads.blank]

/-- A token inside a line leaves the line as it is. -/
theorem line_next_of_inner
    (inner : scanner.next.1.kind.isLineEnd = false) :
    scanner.next.2.line = scanner.line ∧
      scanner.next.2.lineFeeds = scanner.lineFeeds := by
  obtain ⟨gap, text, reads⟩ := scanner.exists_reads
  have none : text.count '\n' = 0 :=
    List.count_eq_zero_of_not_mem (reads.shape.lineFeed_not_mem inner)
  constructor
  · rw [reads.line_eq, none]
    exact UInt32.add_zero _
  · simp [lineFeeds, reads.rest_eq, count_blanks reads.blank, none]

/--
A token that ends a line uses up the line feed that counts the line.  Only the
comment that the end of the text ends does without one.
-/
theorem line_next_of_ended
    (isEnd : scanner.next.1.kind = .newLine ∨ scanner.next.1.kind = .comment) :
    (scanner.next.2.line = scanner.line + 1 ∧
        scanner.next.2.lineFeeds + 1 = scanner.lineFeeds) ∨
      (scanner.next.1.kind = .comment ∧
        scanner.next.2.line = scanner.line ∧
        scanner.next.2.rest = [] ∧ scanner.lineFeeds = 0) := by
  obtain ⟨gap, text, reads⟩ := scanner.exists_reads
  have shape := reads.shape
  have counted := lineFeeds_eq reads
  have single
      (one : text.count '\n' = 1) :
      scanner.next.2.line = scanner.line + 1 ∧
        scanner.next.2.lineFeeds + 1 = scanner.lineFeeds := by
    constructor
    · rw [reads.line_eq, one]
      rfl
    · rw [counted, one, Nat.add_comm]
  rcases isEnd with isNewLine | isComment
  · rw [isNewLine] at shape
    obtain rfl := shape
    exact Or.inl (single (by decide))
  · rw [isComment] at shape
    rcases shape.count_lineFeed with one | ⟨none, restShape⟩
    · exact Or.inl (single one)
    · refine Or.inr ⟨isComment, ?_, restShape, ?_⟩
      · rw [reads.line_eq, none]
        exact UInt32.add_zero _
      · rw [counted, none, lineFeeds, restShape]
        rfl

end Scanner

end Iloc
