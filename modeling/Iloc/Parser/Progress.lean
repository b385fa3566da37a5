import Iloc.Parser.Basic

namespace Iloc.Parser

/-!
# Progress of the parser

No operation of the parser puts a character back, and every turn but the last
takes at least one.  A parse therefore ends on every text.
-/

universe u

variable {σ : Type u}

/-- Ending a line does not read anything. -/
@[simp]
theorem scanner_endLine
    (terminator : TokenKind)
    (parser : Parser σ) :
    (parser.endLine terminator).scanner = parser.scanner := by
  cases terminator <;> rfl

/-- Reporting an error does not read anything. -/
@[simp]
theorem scanner_report
    (listener : Listener σ)
    (error : StatementError)
    (parser : Parser σ) :
    (parser.report listener error).scanner = parser.scanner := by
  unfold report
  split <;> rfl

/-- The number of characters that a parser has still to read. -/
def remaining (parser : Parser σ) : Nat :=
  parser.scanner.rest.length

/-- Reading a token never adds to what is left. -/
theorem remaining_pull_le
    (listener : Listener σ)
    (parser : Parser σ) :
    (parser.pull listener).2.remaining ≤ parser.remaining :=
  parser.scanner.length_rest_next_le

/-- Reading a token other than the end takes from what is left. -/
theorem remaining_pull_lt
    (listener : Listener σ)
    (parser : Parser σ)
    (inner : (parser.pull listener).1 ≠ .eof) :
    (parser.pull listener).2.remaining < parser.remaining :=
  parser.scanner.length_rest_next_lt inner

/-- Following a form never adds to what is left. -/
theorem remaining_check_le
    (listener : Listener σ)
    (opClass : OpClass)
    (form : Form)
    (parser : Parser σ) :
    (parser.check listener opClass form).2.remaining ≤
      parser.remaining := by
  induction form generalizing parser with
  | register rest inductionHypothesis =>
      have pulled :=
        parser.remaining_pull_le listener
      unfold check
      split
      · rename_i number later shape
        rw [shape] at pulled
        exact Nat.le_trans (inductionHypothesis number later) pulled
      · rename_i found later _ shape
        rw [shape] at pulled
        exact pulled
  | constant rest inductionHypothesis =>
      have pulled :=
        parser.remaining_pull_le listener
      unfold check
      split
      · rename_i value later shape
        rw [shape] at pulled
        exact Nat.le_trans (inductionHypothesis value later) pulled
      · rename_i found later _ shape
        rw [shape] at pulled
        exact pulled
  | comma rest inductionHypothesis =>
      have pulled :=
        parser.remaining_pull_le listener
      unfold check
      split
      · rename_i later shape
        rw [shape] at pulled
        exact Nat.le_trans (inductionHypothesis later) pulled
      · rename_i found later _ shape
        rw [shape] at pulled
        exact pulled
  | into rest inductionHypothesis =>
      have pulled :=
        parser.remaining_pull_le listener
      unfold check
      split
      · rename_i later shape
        rw [shape] at pulled
        exact Nat.le_trans (inductionHypothesis later) pulled
      · rename_i found later _ shape
        rw [shape] at pulled
        exact pulled
  | endOfLine instruction =>
      have pulled :=
        parser.remaining_pull_le listener
      unfold check
      dsimp only
      split
      · unfold remaining
        rw [scanner_endLine]
        exact pulled
      · exact pulled

/-- Discarding a line never adds to what is left. -/
theorem remaining_sync_le
    (listener : Listener σ)
    (parser : Parser σ) :
    (parser.sync listener).remaining ≤ parser.remaining := by
  fun_induction sync listener parser with
  | case1 parser pending found later ended =>
      unfold remaining
      rw [scanner_endLine]
      exact parser.remaining_pull_le listener
  | case2 parser pending found later inner inductionHypothesis =>
      exact
        Nat.le_trans inductionHypothesis
          (parser.remaining_pull_le listener)
  | case3 parser settled =>
      exact Nat.le_refl _

/-- Noting an error never adds to what is left. -/
theorem remaining_reject_le
    (listener : Listener σ)
    (error : StatementError)
    (parser : Parser σ) :
    (parser.reject listener error).remaining ≤ parser.remaining := by
  have reported :
      (parser.report listener error).remaining = parser.remaining :=
    congrArg (·.rest.length) (parser.scanner_report listener error)
  unfold reject
  dsimp only
  split
  · unfold remaining at reported ⊢
    rw [scanner_endLine]
    exact Nat.le_of_eq reported
  · exact
      Nat.le_trans (remaining_sync_le listener _)
        (Nat.le_of_eq reported)

/-- Noting an outcome never adds to what is left. -/
theorem remaining_settle_le
    (listener : Listener σ)
    (outcome : Except StatementError Instruction)
    (parser : Parser σ) :
    (parser.settle listener outcome).remaining ≤ parser.remaining := by
  cases outcome with
  | ok instruction =>
      exact Nat.le_refl _
  | error error =>
      exact parser.remaining_reject_le listener error

/-- Every turn that may have a successor takes from what is left. -/
theorem remaining_step_lt
    {listener : Listener σ}
    {parser later : Parser σ}
    (turn : parser.step listener = .again later) :
    later.remaining < parser.remaining := by
  have shrinks :=
    parser.remaining_pull_lt listener
  unfold step at turn
  split at turn
  · cases turn
  · rename_i pulled shape
    rw [shape] at shrinks
    cases turn
    exact shrinks (by simp)
  · rename_i pulled shape
    rw [shape] at shrinks
    cases turn
    exact shrinks (by simp)
  · rename_i opcode pulled shape
    rw [shape] at shrinks
    cases turn
    refine Nat.lt_of_le_of_lt ?_ (shrinks (by simp))
    exact
      Nat.le_trans (remaining_settle_le listener _ _)
        (remaining_check_le listener _ _ pulled)
  · rename_i found pulled notEof _ _ _ shape
    rw [shape] at shrinks
    cases turn
    refine Nat.lt_of_le_of_lt ?_ (shrinks ?_)
    · exact remaining_settle_le listener _ pulled
    · exact notEof

end Iloc.Parser
