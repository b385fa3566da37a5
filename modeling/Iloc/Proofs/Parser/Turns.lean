import Iloc.Proofs.Parser.History
import Iloc.Proofs.Parser.Simulation

namespace Iloc

/-!
# The turns of a parse

A parse takes one turn for every line, and a last one for the end of the text.
Between two turns parser and scanner agree about the line they are on, unless
a comment that the end of the text ends has taken the parser one line further.
No line has been reported yet that is still to come, so the parser never holds
an error back.

From that agreement follows the state before every turn and at the end of the
parse: it is what the reference makes of the lines read so far.
-/

namespace TokenLine

/-- The line of a turn that reads nothing but the end of the text. -/
def IsEnd (line : TokenLine) : Prop :=
  line.body = [] ∧ line.terminator.kind = .eof

instance (line : TokenLine) : Decidable line.IsEnd :=
  inferInstanceAs (Decidable (_ ∧ _))

end TokenLine

namespace Scanner

/-- The lines that a parse reads, one in each turn. -/
inductive Turns : Scanner → List TokenLine → Prop where
  | last
      {scanner : Scanner}
      {line : TokenLine}
      (reads : scanner.ReadsLine line)
      (isEnd : line.IsEnd) :
      Turns scanner [line]
  | turn
      {scanner : Scanner}
      {line : TokenLine}
      {lines : List TokenLine}
      (reads : scanner.ReadsLine line)
      (goesOn : ¬ line.IsEnd)
      (later : (scanner.skip line.tokens).Turns lines) :
      Turns scanner (line :: lines)

variable {scanner : Scanner} {line : TokenLine} {lines : List TokenLine}

theorem length_rest_skip_le
    (scanner : Scanner)
    (tokens : List Token) :
    (scanner.skip tokens).rest.length ≤ scanner.rest.length := by
  induction tokens generalizing scanner with
  | nil =>
      exact Nat.le_refl _
  | cons token rest inductionHypothesis =>
      exact
        Nat.le_trans (inductionHypothesis scanner.next.2)
          scanner.length_rest_next_le

/-- A line that is not the end takes characters. -/
theorem ReadsLine.length_rest_skip_lt
    (reads : scanner.ReadsLine line)
    (goesOn : ¬ line.IsEnd) :
    (scanner.skip line.tokens).rest.length < scanner.rest.length := by
  have ahead := reads.ahead
  cases bodyShape : line.body with
  | nil =>
      have inner : line.terminator.kind ≠ .eof := by
        intro atEnd
        exact goesOn ⟨bodyShape, atEnd⟩
      rw [TokenLine.tokens_of_nil bodyShape] at ahead ⊢
      rw [← ahead.1] at inner
      exact scanner.length_rest_next_lt inner
  | cons first operands =>
      have inner := line.inner first (by simp [bodyShape])
      rw [TokenLine.tokens_of_cons bodyShape] at ahead ⊢
      rw [← ahead.1] at inner
      have shrinks :=
        scanner.length_rest_next_lt
          (TokenKind.ne_eof_of_isLineEnd_eq_false inner)
      have shrunk :=
        scanner.next.2.length_rest_skip_le (operands ++ [line.terminator])
      exact Nat.lt_of_le_of_lt shrunk shrinks

/-- Every parse comes to its last turn. -/
theorem exists_turns
    (scanner : Scanner) :
    ∃ lines, scanner.Turns lines := by
  induction size : scanner.rest.length using Nat.strongRecOn
    generalizing scanner with
  | ind size inductionHypothesis =>
      obtain ⟨line, reads⟩ := scanner.exists_readsLine
      by_cases isEnd : line.IsEnd
      · exact ⟨_, .last reads isEnd⟩
      · have shorter := reads.length_rest_skip_lt isEnd
        rw [size] at shorter
        obtain ⟨lines, later⟩ := inductionHypothesis _ shorter _ rfl
        exact ⟨_, .turn reads isEnd later⟩

/-- At the end of a text nothing but the end is read. -/
theorem ReadsLine.isEnd_of_atEnd
    (reads : scanner.ReadsLine line)
    (atEnd : scanner.AtEnd) :
    line.IsEnd := by
  have ahead := reads.ahead
  rw [AtEnd] at atEnd
  cases bodyShape : line.body with
  | nil =>
      rw [TokenLine.tokens_of_nil bodyShape] at ahead
      rw [ahead.1] at atEnd
      exact ⟨bodyShape, atEnd⟩
  | cons first operands =>
      have inner := line.inner first (by simp [bodyShape])
      rw [TokenLine.tokens_of_cons bodyShape] at ahead
      rw [← ahead.1, atEnd] at inner
      cases inner

/-- After the end of a text has been read only the end is left. -/
theorem ReadsLine.atEnd_skip
    (reads : scanner.ReadsLine line)
    (atEnd : line.terminator.kind = .eof) :
    (scanner.skip line.tokens).AtEnd := by
  have crosses := reads.crosses
  generalize line.terminator.kind = terminator at atEnd crosses
  cases crosses with
  | eof behindAtEnd sameLine =>
      exact behindAtEnd
  | lineFeed isEnd nextLine used =>
      rcases isEnd with rfl | rfl
      · cases atEnd
      · cases atEnd
  | openComment behindAtEnd sameLine none =>
      exact behindAtEnd

/-- The end of the text stands on the line that it ends. -/
theorem ReadsLine.terminator_of_atEnd
    (reads : scanner.ReadsLine line)
    (atEnd : line.terminator.kind = .eof) :
    line.terminator = ⟨.eof, (scanner.skip line.tokens).line⟩ := by
  have onLine : line.terminator.line = scanner.line := by
    apply reads.numbers
    simp [TokenLine.tokens]
  have crosses := reads.crosses
  have sameLine : (scanner.skip line.tokens).line = scanner.line := by
    generalize line.terminator.kind = terminator at atEnd crosses
    cases crosses with
    | eof behindAtEnd sameLine =>
        exact sameLine
    | lineFeed isEnd nextLine used =>
        rcases isEnd with rfl | rfl
        · cases atEnd
        · cases atEnd
    | openComment behindAtEnd sameLine none =>
        exact sameLine
  rw [← atEnd, sameLine, ← onLine]

/-- At the end of a text only the last turn is left. -/
theorem Turns.of_atEnd
    (turns : scanner.Turns lines)
    (atEnd : scanner.AtEnd) :
    ∃ line, lines = [line] ∧ line.IsEnd := by
  cases turns with
  | last reads isEnd =>
      exact ⟨_, rfl, isEnd⟩
  | turn reads goesOn later =>
      exact absurd (reads.isEnd_of_atEnd atEnd) goesOn

/--
The turns read the lines of the text.  One more turn reads the end again, if a
line ends with the end of the text.
-/
theorem Turns.cut_eq
    (turns : scanner.Turns lines) :
    ∃ extra,
      lines = TokenLine.cut scanner.tokens ++ extra ∧
        extra.length ≤ 1 ∧ ∀ line ∈ extra, line.IsEnd := by
  induction turns with
  | last reads isEnd =>
      refine ⟨[], ?_, Nat.zero_le _, List.forall_mem_nil _⟩
      rw [reads.cut_eq, if_pos isEnd.2, List.append_nil]
  | @turn scanner line lines reads goesOn later inductionHypothesis =>
      by_cases atEnd : line.terminator.kind = .eof
      · obtain ⟨last, rfl, isEnd⟩ :=
          later.of_atEnd (reads.atEnd_skip atEnd)
        refine ⟨[last], ?_, Nat.le_refl _, ?_⟩
        · rw [reads.cut_eq, if_pos atEnd]
          rfl
        · intro extra member
          rw [List.mem_singleton.mp member]
          exact isEnd
      · obtain ⟨extra, shape, atMostOne, allEnd⟩ := inductionHypothesis
        refine ⟨extra, ?_, atMostOne, allEnd⟩
        rw [reads.cut_eq, if_neg atEnd, shape]
        rfl

/-- The tokens of all turns are those that the scanner reads. -/
theorem Turns.ahead
    (turns : scanner.Turns lines) :
    scanner.Ahead (lines.flatMap TokenLine.tokens) := by
  induction turns with
  | last reads isEnd =>
      rw [List.flatMap_singleton]
      exact reads.ahead
  | turn reads goesOn later inductionHypothesis =>
      rw [List.flatMap_cons, ahead_append]
      exact ⟨reads.ahead, inductionHypothesis⟩

end Scanner

/-- Only the terminator of a line can begin a new one. -/
theorem TokenLine.countP_beginsLine
    (line : TokenLine) :
    line.tokens.countP Token.beginsLine =
      if line.terminator.kind = .eof then 0 else 1 := by
  have none : line.body.countP Token.beginsLine = 0 := by
    rw [List.countP_eq_zero]
    intro token member begins
    have inner := line.inner token member
    simp only [Token.beginsLine, Bool.or_eq_true, decide_eq_true_eq] at begins
    rcases begins with isNewLine | isComment
    · rw [isNewLine] at inner
      cases inner
    · rw [isComment] at inner
      cases inner
  have ended := line.ended
  rw [tokens, List.countP_append, none, List.countP_singleton]
  cases kind : line.terminator.kind <;>
    simp_all [Token.beginsLine, TokenKind.isLineEnd]

namespace Parser

universe u

variable {σ : Type u}

/--
What holds of a parser between two turns, when it has read `pulled` of a text
with `feeds` line feeds.
-/
structure InStep
    (feeds : Nat)
    (pulled : List Token)
    (parser : Parser σ) :
    Prop where
  settled : parser.pendingResync = false
  counted :
    parser.line.toNat = 1 + pulled.countP Token.beginsLine
  agrees :
    parser.scanner.AtEnd ∨
      parser.line = parser.scanner.line ∧
        parser.line.toNat + parser.scanner.lineFeeds = 1 + feeds
  bounded : parser.line.toNat ≤ 2 + feeds
  reported :
    ∀ last ∈ parser.lastReported,
      last < parser.line ∨
        last = parser.line ∧ parser.scanner.AtEnd ∧
          ∃ token ∈ pulled, token.kind = .eof

namespace InStep

variable {feeds : Nat} {pulled : List Token} {parser : Parser σ}
variable {line : TokenLine}

/-- Before anything has been read the parser is in step. -/
theorem ofSource
    (source : String)
    (sink : σ) :
    (Parser.ofSource source sink).InStep
      (source.toList.count '\n') [] where
  settled := rfl
  counted := rfl
  agrees := Or.inr ⟨rfl, rfl⟩
  bounded := by
    show 1 ≤ 2 + source.toList.count '\n'
    omega
  reported := by
    intro last isSome
    cases isSome

/-- No error of the line ahead has been reported. -/
theorem fresh
    (inStep : parser.InStep feeds pulled)
    (reads : parser.scanner.ReadsLine line)
    (statement : line.body ≠ []) :
    parser.lastReported ≠ some parser.line := by
  intro isCurrent
  rcases inStep.reported _ isCurrent with earlier | ⟨-, atEnd, -⟩
  · exact Nat.lt_irrefl _ (UInt32.lt_iff_toNat_lt.mp earlier)
  · exact statement (reads.isEnd_of_atEnd atEnd).1

/-- Where a line goes on to another, parser and scanner are on one line. -/
theorem sameLine
    (inStep : parser.InStep feeds pulled)
    (reads : parser.scanner.ReadsLine line)
    (goesOn : line.terminator.kind ≠ .eof) :
    parser.line = parser.scanner.line ∧
      parser.line.toNat + parser.scanner.lineFeeds = 1 + feeds := by
  rcases inStep.agrees with atEnd | same
  · exact absurd (reads.isEnd_of_atEnd atEnd).2 goesOn
  · exact same

/-- The number of the next line is exact: it does not wrap around. -/
theorem toNat_numberBehind
    (inStep : parser.InStep feeds pulled)
    (reads : parser.scanner.ReadsLine line)
    (small : feeds + 3 ≤ UInt32.size) :
    (line.numberBehind parser.line).toNat =
      parser.line.toNat + line.tokens.countP Token.beginsLine := by
  rw [line.countP_beginsLine, TokenLine.numberBehind]
  by_cases atEnd : line.terminator.kind = .eof
  · rw [if_pos atEnd, if_pos atEnd]
    rfl
  · rw [if_neg atEnd, if_neg atEnd]
    obtain ⟨-, total⟩ := inStep.sameLine reads atEnd
    have size : UInt32.size = 2 ^ 32 := rfl
    rw [UInt32.toNat_add]
    apply Nat.mod_eq_of_lt
    show parser.line.toNat + 1 < 2 ^ 32
    omega

/-- The end of the text begins no line, and everything else does. -/
theorem lt_numberBehind
    (inStep : parser.InStep feeds pulled)
    (reads : parser.scanner.ReadsLine line)
    (small : feeds + 3 ≤ UInt32.size)
    (goesOn : line.terminator.kind ≠ .eof) :
    parser.line < line.numberBehind parser.line := by
  rw [UInt32.lt_iff_toNat_lt, inStep.toNat_numberBehind reads small,
    line.countP_beginsLine, if_neg goesOn]
  exact Nat.lt_succ_self _

/-- Nothing beyond the line just read is reported. -/
theorem lastReported_takeLine_le
    (inStep : parser.InStep feeds pulled)
    (listener : Listener σ) :
    ∀ last ∈ (parser.takeLine listener line).lastReported,
      last ≤ parser.line := by
  intro last isLast
  rw [Parser.takeLine] at isLast
  by_cases erroneous : line.error?.isSome
  · rw [if_pos erroneous] at isLast
    obtain rfl := Option.some.inj isLast
    exact UInt32.le_refl _
  · rw [if_neg erroneous] at isLast
    rcases inStep.reported last isLast with earlier | ⟨isCurrent, -, -⟩
    · exact UInt32.le_of_lt earlier
    · rw [isCurrent]
      exact UInt32.le_refl _

/-- What has been reported lies behind, unless nothing lies ahead. -/
theorem reported_takeLine
    (inStep : parser.InStep feeds pulled)
    (reads : parser.scanner.ReadsLine line)
    (small : feeds + 3 ≤ UInt32.size)
    (listener : Listener σ) :
    ∀ last ∈ (parser.takeLine listener line).lastReported,
      last < line.numberBehind parser.line ∨
        last = line.numberBehind parser.line ∧
          (parser.scanner.skip line.tokens).AtEnd ∧
            ∃ token ∈ pulled ++ line.tokens, token.kind = .eof := by
  intro last isLast
  have notBeyond := inStep.lastReported_takeLine_le listener last isLast
  by_cases atEnd : line.terminator.kind = .eof
  · have sameLine : line.numberBehind parser.line = parser.line := by
      rw [TokenLine.numberBehind, if_pos atEnd]
    rw [sameLine]
    rcases UInt32.lt_or_eq_of_le notBeyond with earlier | isCurrent
    · exact Or.inl earlier
    · refine Or.inr ⟨isCurrent, reads.atEnd_skip atEnd, ?_⟩
      exact ⟨line.terminator, by simp [TokenLine.tokens], atEnd⟩
  · left
    exact UInt32.lt_of_le_of_lt notBeyond
      (inStep.lt_numberBehind reads small atEnd)

/-- Parser and scanner begin a new line together. -/
theorem agrees_takeLine
    (inStep : parser.InStep feeds pulled)
    (reads : parser.scanner.ReadsLine line)
    (small : feeds + 3 ≤ UInt32.size) :
    (parser.scanner.skip line.tokens).AtEnd ∨
      line.numberBehind parser.line =
          (parser.scanner.skip line.tokens).line ∧
        (line.numberBehind parser.line).toNat +
            (parser.scanner.skip line.tokens).lineFeeds =
          1 + feeds := by
  by_cases atEnd : line.terminator.kind = .eof
  · exact Or.inl (reads.atEnd_skip atEnd)
  · obtain ⟨same, total⟩ := inStep.sameLine reads atEnd
    have behind := inStep.toNat_numberBehind reads small
    rw [line.countP_beginsLine, if_neg atEnd] at behind
    have next : line.numberBehind parser.line = parser.line + 1 := by
      rw [TokenLine.numberBehind, if_neg atEnd]
    have crosses := reads.crosses
    generalize line.terminator.kind = terminator at atEnd crosses
    cases crosses with
    | eof behindAtEnd sameLine =>
        exact absurd rfl atEnd
    | lineFeed isEnd nextLine used =>
        right
        constructor
        · rw [next, nextLine, same]
        · omega
    | openComment behindAtEnd sameLine none =>
        exact Or.inl behindAtEnd

/-- A turn keeps the parser in step. -/
theorem takeLine
    (inStep : parser.InStep feeds pulled)
    (reads : parser.scanner.ReadsLine line)
    (small : feeds + 3 ≤ UInt32.size)
    (listener : Listener σ) :
    (parser.takeLine listener line).InStep feeds
      (pulled ++ line.tokens) := by
  have behind := inStep.toNat_numberBehind reads small
  refine ⟨rfl, ?_, inStep.agrees_takeLine reads small, ?_,
    inStep.reported_takeLine reads small listener⟩
  · rw [List.countP_append, ← Nat.add_assoc, ← inStep.counted]
    exact behind
  · show (line.numberBehind parser.line).toNat ≤ 2 + feeds
    rw [behind, line.countP_beginsLine]
    by_cases atEnd : line.terminator.kind = .eof
    · rw [if_pos atEnd]
      exact inStep.bounded
    · obtain ⟨-, total⟩ := inStep.sameLine reads atEnd
      rw [if_neg atEnd]
      omega

/-- A turn does what the reference says about the line ahead. -/
theorem step_eq
    (inStep : parser.InStep feeds pulled)
    (reads : parser.scanner.ReadsLine line)
    (listener : Listener σ) :
    parser.step listener =
      if line.IsEnd then
        .done (parser.takeLine listener line)
      else
        .again (parser.takeLine listener line) :=
  step_of_line listener parser reads.ahead inStep.settled
    (inStep.fresh reads)

end InStep

/-- The state of a parser that has read some lines, one after the other. -/
def takeLines
    (listener : Listener σ)
    (lines : List TokenLine)
    (parser : Parser σ) :
    Parser σ :=
  lines.foldl (fun parser line => parser.takeLine listener line) parser

section takeLines

variable (listener : Listener σ)

@[simp]
theorem takeLines_nil
    (parser : Parser σ) :
    parser.takeLines listener [] = parser := rfl

@[simp]
theorem takeLines_cons
    (line : TokenLine)
    (lines : List TokenLine)
    (parser : Parser σ) :
    parser.takeLines listener (line :: lines) =
      (parser.takeLine listener line).takeLines listener lines := rfl

theorem scanner_takeLines
    (lines : List TokenLine)
    (parser : Parser σ) :
    (parser.takeLines listener lines).scanner =
      parser.scanner.skip (lines.flatMap TokenLine.tokens) := by
  induction lines generalizing parser with
  | nil =>
      rfl
  | cons line lines inductionHypothesis =>
      simp [inductionHypothesis, takeLine]

theorem program_takeLines
    (lines : List TokenLine)
    (parser : Parser σ) :
    (parser.takeLines listener lines).program.toList =
      parser.program.toList ++
        lines.filterMap TokenLine.instruction? := by
  induction lines generalizing parser with
  | nil =>
      simp
  | cons line lines inductionHypothesis =>
      cases added : line.instruction? <;>
        simp [inductionHypothesis, takeLine, added]

theorem errorCount_takeLines
    (lines : List TokenLine)
    (parser : Parser σ) :
    (parser.takeLines listener lines).errorCount =
      parser.errorCount +
        (lines.filterMap TokenLine.error?).length := by
  induction lines generalizing parser with
  | nil =>
      rfl
  | cons line lines inductionHypothesis =>
      cases found : line.error? with
      | none =>
          simp [inductionHypothesis, takeLine, found]
      | some error =>
          simp only [takeLines_cons, inductionHypothesis, takeLine, found,
            List.filterMap_cons, Option.toList_some, List.length_cons,
            List.length_nil]
          omega

theorem sink_takeLines
    (lines : List TokenLine)
    (parser : Parser σ) :
    (parser.takeLines listener lines).sink =
      (TokenLine.history parser.line lines).foldl listener.hear
        parser.sink := by
  induction lines generalizing parser with
  | nil =>
      rfl
  | cons line lines inductionHypothesis =>
      simp [inductionHypothesis, takeLine, TokenLine.history]

end takeLines

/-- The parser before the turn behind a number of others, if there is one. -/
def afterTurns
    (listener : Listener σ) :
    Nat → Parser σ → Option (Parser σ)
  | 0, parser => some parser
  | turns + 1, parser =>
      match parser.step listener with
      | .again later => later.afterTurns listener turns
      | .done _ => none

namespace InStep

variable {feeds : Nat} {pulled : List Token} {parser : Parser σ}
variable {lines : List TokenLine}

/-- Any number of turns keeps the parser in step. -/
theorem takeLines
    (inStep : parser.InStep feeds pulled)
    (turns : parser.scanner.Turns lines)
    (small : feeds + 3 ≤ UInt32.size)
    (listener : Listener σ)
    (number : Nat) :
    (parser.takeLines listener (lines.take number)).InStep feeds
      (pulled ++ (lines.take number).flatMap TokenLine.tokens) := by
  generalize start : parser.scanner = scanner at turns
  induction turns generalizing parser pulled number with
  | @last scanner line reads isEnd =>
      subst start
      cases number with
      | zero =>
          simpa [Parser.takeLines] using inStep
      | succ number =>
          simpa [Parser.takeLines] using
            inStep.takeLine reads small listener
  | @turn scanner line lines reads goesOn later inductionHypothesis =>
      subst start
      cases number with
      | zero =>
          simpa [Parser.takeLines] using inStep
      | succ number =>
          have behind :=
            inductionHypothesis (inStep.takeLine reads small listener)
              number rfl
          simpa [Parser.takeLines] using behind

/-- Before every turn the parser has read one line for each turn taken. -/
theorem afterTurns_eq
    (inStep : parser.InStep feeds pulled)
    (turns : parser.scanner.Turns lines)
    (small : feeds + 3 ≤ UInt32.size)
    (listener : Listener σ)
    (number : Nat) :
    parser.afterTurns listener number =
      if number < lines.length then
        some (parser.takeLines listener (lines.take number))
      else
        none := by
  generalize start : parser.scanner = scanner at turns
  induction turns generalizing parser pulled number with
  | @last scanner line reads isEnd =>
      subst start
      cases number with
      | zero =>
          rfl
      | succ number =>
          rw [afterTurns, inStep.step_eq reads, if_pos isEnd]
          rfl
  | @turn scanner line lines reads goesOn later inductionHypothesis =>
      subst start
      cases number with
      | zero =>
          rfl
      | succ number =>
          rw [afterTurns, inStep.step_eq reads, if_neg goesOn]
          have behind :=
            inductionHypothesis (inStep.takeLine reads small listener)
              number rfl
          simpa [Parser.takeLines] using behind

/-- At the end of a parse all lines have been read. -/
theorem run_eq
    (inStep : parser.InStep feeds pulled)
    (turns : parser.scanner.Turns lines)
    (small : feeds + 3 ≤ UInt32.size)
    (listener : Listener σ) :
    parser.run listener = parser.takeLines listener lines := by
  generalize start : parser.scanner = scanner at turns
  induction turns generalizing parser pulled with
  | @last scanner line reads isEnd =>
      subst start
      have turn := inStep.step_eq reads listener
      rw [if_pos isEnd] at turn
      exact run_of_done turn
  | @turn scanner line lines reads goesOn later inductionHypothesis =>
      subst start
      have turn := inStep.step_eq reads listener
      rw [if_neg goesOn] at turn
      rw [run_of_again turn]
      exact inductionHypothesis (inStep.takeLine reads small listener) rfl

end InStep

end Parser

end Iloc
