import Iloc.Proofs.Scanner.Stream
import Iloc.Validation

namespace Iloc

/-!
# Lines of tokens

The reference for the parser looks at a text one line at a time.  The tokens
of the text are cut behind every token that ends a line, and each line is
judged on its own: the tokens behind its opcode are compared with the pattern
of the opcode's class, place by place, and the first place that does not fit
is the error of the line.

A judgement also says how far the line has to be read to reach it.  From that
follow the events that reading the line brings about.
-/

/-- The tokens of one line: what stands in it, and the token that ends it. -/
structure TokenLine where
  body : List Token
  terminator : Token
  inner : ∀ token ∈ body, token.kind.isLineEnd = false
  ended : terminator.kind.isLineEnd = true

/-- The places of a statement behind its opcode. -/
def OpClass.pattern : OpClass → List Terminal
  | .memOp => [.register, .into, .register, .endOfLine]
  | .loadI => [.constant, .into, .register, .endOfLine]
  | .arithOp =>
      [.register, .comma, .register, .into, .register, .endOfLine]
  | .output => [.constant, .endOfLine]
  | .nop => [.endOfLine]

/-- Whether a token of some kind fits a place. -/
def Terminal.admits : Terminal → TokenKind → Bool
  | .register, .register _ => true
  | .constant, .constant _ => true
  | .comma, .comma => true
  | .into, .into => true
  | .endOfLine, kind => kind.isLineEnd
  | _, _ => false

@[simp]
theorem Terminal.admits_endOfLine
    (kind : TokenKind) :
    Terminal.endOfLine.admits kind = kind.isLineEnd :=
  rfl

/-- A place that is not the end of a line admits nothing that ends one. -/
theorem Terminal.admits_eq_false
    {place : Terminal}
    (inside : place ≠ .endOfLine)
    {kind : TokenKind}
    (ended : kind.isLineEnd = true) :
    place.admits kind = false := by
  cases place with
  | endOfLine =>
      exact absurd rfl inside
  | _ =>
      cases kind with
      | eof => rfl
      | newLine => rfl
      | comment => rfl
      | _ => cases ended

/-- The number that a token gives to an instruction as an operand. -/
def TokenKind.operand? : TokenKind → Option UInt32
  | .constant value => some value
  | .register number => some number
  | _ => none

theorem TokenKind.operand?_of_ended
    {kind : TokenKind}
    (ended : kind.isLineEnd = true) :
    kind.operand? = none := by
  cases kind with
  | constant value => cases ended
  | register number => cases ended
  | _ => rfl

/-- The instruction of an opcode and its operands in source order. -/
def Opcode.instruction? : Opcode → List UInt32 → Option Instruction
  | .mem op, [source, destination] => some (.mem op source destination)
  | .loadI, [constant, destination] => some (.loadI constant destination)
  | .arith op, [left, right, destination] =>
      some (.arith op left right destination)
  | .output, [constant] => some (.output constant)
  | .nop, [] => some .nop
  | _, _ => none

/-- The first token that does not fit its place, and what surrounds it. -/
structure Mismatch where
  fitting : List Token
  expected : Terminal
  found : Token
  unread : List Token

namespace Mismatch

/-- The same mismatch behind one more token that fits. -/
def prepend (token : Token) (mismatch : Mismatch) : Mismatch :=
  { mismatch with fitting := token :: mismatch.fitting }

/-- The tokens up to the one that does not fit. -/
def read (mismatch : Mismatch) : List Token :=
  mismatch.fitting ++ [mismatch.found]

end Mismatch

/-- Compare tokens with a pattern up to the first token that does not fit. -/
def firstMismatch? : List Terminal → List Token → Option Mismatch
  | place :: pattern, token :: tokens =>
      if place.admits token.kind then
        (firstMismatch? pattern tokens).map (Mismatch.prepend token)
      else
        some ⟨[], place, token, tokens⟩
  | _, _ => none

/-- What the reference makes of one line. -/
inductive Judgement where
  /-- There is no statement in the line. -/
  | blank
  /-- The line is the statement of an instruction. -/
  | accepted (instruction : Instruction)
  /-- The line is wrong; the last token of `read` shows it. -/
  | rejected (error : StatementError) (read unread : List Token)

namespace TokenLine

/-- All tokens of a line. -/
def tokens (line : TokenLine) : List Token :=
  line.body ++ [line.terminator]

/-- The same line with one more token in front. -/
def prepend
    (token : Token)
    (inner : token.kind.isLineEnd = false)
    (line : TokenLine) :
    TokenLine where
  body := token :: line.body
  terminator := line.terminator
  inner := List.forall_mem_cons.mpr ⟨inner, line.inner⟩
  ended := line.ended

/-- The lines of a token list.  Tokens behind the last terminator get lost. -/
def cut : List Token → List TokenLine
  | [] => []
  | token :: rest =>
      if ended : token.kind.isLineEnd = true then
        ⟨[], token, List.forall_mem_nil _, ended⟩ :: cut rest
      else
        match cut rest with
        | [] => []
        | line :: lines =>
            line.prepend token (Bool.eq_false_iff.mpr ended) :: lines

/-- The judgement on a line. -/
def judge (line : TokenLine) : Judgement :=
  match line.body with
  | [] => .blank
  | first :: operands =>
      let remaining := operands ++ [line.terminator]
      match first.kind with
      | .opcode opcode =>
          match firstMismatch? opcode.opClass.pattern remaining with
          | some mismatch =>
              .rejected
                (.mismatch opcode.opClass mismatch.expected
                  mismatch.found.kind)
                (first :: mismatch.read) mismatch.unread
          | none =>
              let values := operands.filterMap (·.kind.operand?)
              match opcode.instruction? values with
              | some instruction => .accepted instruction
              | none => .blank
      | found =>
          .rejected (.notAnOpcode found) [first] remaining

/-- The instruction that a line adds to the program. -/
def instruction? (line : TokenLine) : Option Instruction :=
  match line.judge with
  | .accepted instruction => some instruction
  | _ => none

/-- The error that a line is rejected for. -/
def error? (line : TokenLine) : Option StatementError :=
  match line.judge with
  | .rejected error _ _ => some error
  | _ => none

/-- The number of the line behind a line.  The end of the text begins none. -/
def numberBehind (line : TokenLine) (number : UInt32) : UInt32 :=
  if line.terminator.kind = .eof then number else number + 1

end TokenLine

/-- The event of reading a token. -/
def Token.scanned (token : Token) : Event :=
  .log (.scanned token)

/-- The events of discarding a token of a rejected line. -/
def Token.discarded (number : UInt32) (token : Token) : List Event :=
  if token.kind.isLineEnd then
    [token.scanned]
  else
    [token.scanned, .log (.skipped number token.kind)]

/-- The events of reading the line with a given number. -/
def TokenLine.events (line : TokenLine) (number : UInt32) : List Event :=
  match line.judge with
  | .blank => line.tokens.map Token.scanned
  | .accepted instruction =>
      line.tokens.map Token.scanned ++
        [.log (.committed (line.numberBehind number) instruction)]
  | .rejected error read unread =>
      read.map Token.scanned ++
        .report ⟨number, error⟩ ::
          unread.flatMap (Token.discarded number)

namespace TokenLine

theorem tokens_of_nil
    {line : TokenLine}
    (empty : line.body = []) :
    line.tokens = [line.terminator] := by
  rw [tokens, empty]
  rfl

theorem tokens_of_cons
    {line : TokenLine}
    {first : Token}
    {operands : List Token}
    (bodyShape : line.body = first :: operands) :
    line.tokens = first :: (operands ++ [line.terminator]) := by
  rw [tokens, bodyShape]
  rfl

theorem tokens_prepend
    (token : Token)
    (inner : token.kind.isLineEnd = false)
    (line : TokenLine) :
    (line.prepend token inner).tokens = token :: line.tokens := rfl

theorem cut_cons_of_ended
    {token : Token}
    (ended : token.kind.isLineEnd = true)
    (rest : List Token) :
    cut (token :: rest) =
      ⟨[], token, List.forall_mem_nil _, ended⟩ :: cut rest := by
  simp only [cut, ended, ↓reduceDIte]

theorem cut_cons_of_inner
    {token : Token}
    (inner : token.kind.isLineEnd = false)
    {rest : List Token}
    {line : TokenLine}
    {lines : List TokenLine}
    (restCut : cut rest = line :: lines) :
    cut (token :: rest) = line.prepend token inner :: lines := by
  simp [cut, inner, restCut]

end TokenLine

/-- Comparing leaves out no token. -/
theorem Mismatch.read_append_unread
    {pattern : List Terminal}
    {tokens : List Token}
    {mismatch : Mismatch}
    (found : firstMismatch? pattern tokens = some mismatch) :
    mismatch.read ++ mismatch.unread = tokens := by
  induction pattern generalizing tokens mismatch with
  | nil =>
      cases found
  | cons place pattern inductionHypothesis =>
      cases tokens with
      | nil =>
          cases found
      | cons token rest =>
          rw [firstMismatch?] at found
          split at found
          · obtain ⟨later, foundLater, rfl⟩ :=
              Option.map_eq_some_iff.mp found
            exact congrArg (token :: ·) (inductionHypothesis foundLater)
          · cases found
            rfl

namespace TokenLine

variable {line : TokenLine}

/--
A rejected line is read up to the token in error, and the rest of it is left.
-/
theorem rejected_split
    {error : StatementError}
    {read unread : List Token}
    (rejected : line.judge = .rejected error read unread) :
    read ++ unread = line.tokens ∧
      ∃ fitting found, read = fitting ++ [found] ∧
        error.found = found.kind := by
  rw [judge] at rejected
  split at rejected
  · cases rejected
  · rename_i first operands bodyShape
    have tokensShape := tokens_of_cons bodyShape
    dsimp only at rejected
    split at rejected
    · split at rejected
      · rename_i mismatch found
        cases rejected
        refine ⟨?_, first :: mismatch.fitting, mismatch.found, rfl, rfl⟩
        rw [tokensShape, ← Mismatch.read_append_unread found]
        rfl
      · split at rejected <;> cases rejected
    · cases rejected
      exact ⟨tokensShape.symm, [], first, rfl, rfl⟩

/--
A token of a line either ends the line, or it stands in the line and the
terminator is left with whatever stands between them.
-/
theorem cases_of_split
    {earlier unread : List Token}
    {token : Token}
    (split : earlier ++ [token] ++ unread = line.tokens) :
    (unread = [] ∧ token = line.terminator) ∨
      (token.kind.isLineEnd = false ∧
        ∃ discarded, unread = discarded ++ [line.terminator] ∧
          ∀ token ∈ discarded, token.kind.isLineEnd = false) := by
  rcases List.eq_nil_or_concat unread with rfl | ⟨discarded, last, rfl⟩
  · rw [List.append_nil] at split
    obtain ⟨-, same⟩ := List.append_inj' split rfl
    exact Or.inl ⟨rfl, List.head_eq_of_cons_eq same⟩
  · rw [List.concat_eq_append, ← List.append_assoc] at split
    obtain ⟨bodyShape, same⟩ := List.append_inj' split rfl
    have inner := line.inner
    rw [← bodyShape] at inner
    refine Or.inr ⟨inner token (by simp), discarded, ?_, ?_⟩
    · rw [List.concat_eq_append, same]
    · intro other member
      exact inner other (by simp [member])

/--
The token in error either ends the line itself, or it stands in the line and
the terminator is left with whatever stands between them.
-/
theorem rejected_cases
    {error : StatementError}
    {read unread : List Token}
    (rejected : line.judge = .rejected error read unread) :
    (unread = [] ∧ error.found = line.terminator.kind) ∨
      (error.found.isLineEnd = false ∧
        ∃ discarded, unread = discarded ++ [line.terminator] ∧
          ∀ token ∈ discarded, token.kind.isLineEnd = false) := by
  obtain ⟨split, fitting, found, rfl, foundKind⟩ :=
    rejected_split rejected
  rw [foundKind]
  rcases cases_of_split split with ⟨isLast, rfl⟩ | inLine
  · exact Or.inl ⟨isLast, rfl⟩
  · exact Or.inr inLine

end TokenLine

namespace Scanner

/--
How a scanner moves on to the line behind.  A line feed is used up and counted,
unless the line was the last one.
-/
inductive Crosses (before behind : Scanner) : TokenKind → Prop where
  /-- The end of the text ends the line and remains ahead. -/
  | eof
      (atEnd : behind.AtEnd)
      (sameLine : behind.line = before.line) :
      Crosses before behind .eof
  /-- A line feed, alone or behind a comment, ends the line. -/
  | lineFeed
      {terminator : TokenKind}
      (isEnd : terminator = .newLine ∨ terminator = .comment)
      (nextLine : behind.line = before.line + 1)
      (used : behind.lineFeeds + 1 = before.lineFeeds) :
      Crosses before behind terminator
  /-- The end of the text ends a comment. -/
  | openComment
      (atEnd : behind.AtEnd)
      (sameLine : behind.line = before.line)
      (none : before.lineFeeds = 0) :
      Crosses before behind .comment

/-- The line that a scanner is about to read, and what reading it does. -/
structure ReadsLine (scanner : Scanner) (line : TokenLine) : Prop where
  ahead : scanner.Ahead line.tokens
  numbers : ∀ token ∈ line.tokens, token.line = scanner.line
  crosses :
    scanner.Crosses (scanner.skip line.tokens) line.terminator.kind
  cut_eq :
    TokenLine.cut scanner.tokens =
      if line.terminator.kind = .eof then
        [line]
      else
        line :: TokenLine.cut (scanner.skip line.tokens).tokens

variable {scanner : Scanner}

/-- A scanner before the end of a line reads an empty line. -/
theorem readsLine_of_ended
    (ended : scanner.next.1.kind.isLineEnd = true) :
    scanner.ReadsLine
      ⟨[], scanner.next.1, List.forall_mem_nil _, ended⟩ := by
  have crosses :
      scanner.Crosses scanner.next.2 scanner.next.1.kind := by
    by_cases atEnd : scanner.next.1.kind = .eof
    · rw [atEnd]
      exact .eof (atEnd_next atEnd) (line_next_of_atEnd atEnd)
    · have isEnd :
          scanner.next.1.kind = .newLine ∨
            scanner.next.1.kind = .comment := by
        revert ended atEnd
        cases scanner.next.1.kind <;> simp [TokenKind.isLineEnd]
      rcases line_next_of_ended isEnd with
          ⟨nextLine, used⟩ | ⟨isComment, sameLine, restShape, none⟩
      · exact .lineFeed isEnd nextLine used
      · rw [isComment]
        exact .openComment (atEnd_of_rest restShape) sameLine none
  refine ⟨⟨rfl, trivial⟩, ?_, crosses, ?_⟩
  · intro token member
    rw [List.mem_singleton.mp member]
    rfl
  · by_cases atEnd : scanner.next.1.kind = .eof
    · rw [tokens_of_eof atEnd, TokenLine.cut_cons_of_ended ended,
        if_pos atEnd, TokenLine.cut]
    · rw [tokens_of_ne_eof atEnd, TokenLine.cut_cons_of_ended ended,
        if_neg atEnd]
      rfl

/-- A scanner crosses to the line behind from every place of its line. -/
theorem Crosses.earlier
    {before behind : Scanner}
    {terminator : TokenKind}
    (crosses : before.Crosses behind terminator)
    (sameLine : before.line = scanner.line)
    (sameFeeds : before.lineFeeds = scanner.lineFeeds) :
    scanner.Crosses behind terminator := by
  cases crosses with
  | eof atEnd unchanged =>
      exact .eof atEnd (unchanged.trans sameLine)
  | lineFeed isEnd nextLine used =>
      rw [sameLine] at nextLine
      exact .lineFeed isEnd nextLine (used.trans sameFeeds)
  | openComment atEnd unchanged none =>
      exact .openComment atEnd (unchanged.trans sameLine)
        (sameFeeds.symm.trans none)

/-- A token inside a line belongs to the line that the next scanner reads. -/
theorem ReadsLine.prepend
    {line : TokenLine}
    (inner : scanner.next.1.kind.isLineEnd = false)
    (reads : scanner.next.2.ReadsLine line) :
    scanner.ReadsLine (line.prepend scanner.next.1 inner) := by
  have notEof := TokenKind.ne_eof_of_isLineEnd_eq_false inner
  obtain ⟨sameLine, sameFeeds⟩ := line_next_of_inner inner
  refine ⟨⟨rfl, reads.ahead⟩, ?_,
    reads.crosses.earlier sameLine sameFeeds, ?_⟩
  · intro token member
    rcases List.mem_cons.mp member with isFirst | inRest
    · rw [isFirst]
      rfl
    · rw [reads.numbers token inRest, sameLine]
  · have restCut := reads.cut_eq
    show TokenLine.cut scanner.tokens =
      if line.terminator.kind = .eof then _ else _
    rw [tokens_of_ne_eof notEof]
    by_cases atEnd : line.terminator.kind = .eof
    · rw [if_pos atEnd] at restCut ⊢
      exact TokenLine.cut_cons_of_inner inner restCut
    · rw [if_neg atEnd] at restCut ⊢
      exact TokenLine.cut_cons_of_inner inner restCut

/-- Every scanner reads a line next. -/
theorem exists_readsLine
    (scanner : Scanner) :
    ∃ line, scanner.ReadsLine line := by
  induction scanner using induction_next with
  | ended scanner isEnd =>
      refine ⟨_, readsLine_of_ended ?_⟩
      rw [isEnd]
      rfl
  | inner scanner inner inductionHypothesis =>
      cases ended : scanner.next.1.kind.isLineEnd with
      | true =>
          exact ⟨_, readsLine_of_ended ended⟩
      | false =>
          obtain ⟨line, reads⟩ := inductionHypothesis
          exact ⟨_, reads.prepend ended⟩

end Scanner

end Iloc
