import Iloc.Proofs.Parser.LineByLine

namespace Iloc

/-!
# Tokens that change

The judgement on a line does not depend on the line number of its tokens, and
hardly on the token that ends it.  If tokens change in no other way, then lines
remain lines, and an error changes at most in the token that was found.
-/

/--
A change of tokens under which lines remain lines: tokens that end a line still
do, and the others keep their kinds.
-/
structure Relabelling where
  kind : TokenKind → TokenKind
  line : UInt32 → UInt32
  isLineEnd_kind : ∀ found, (kind found).isLineEnd = found.isLineEnd
  kind_inner : ∀ found, found.isLineEnd = false → kind found = found

namespace Relabelling

/-- The changed token. -/
def token (relabelling : Relabelling) (token : Token) : Token :=
  ⟨relabelling.kind token.kind, relabelling.line token.line⟩

/-- The line of the changed tokens. -/
def tokenLine
    (relabelling : Relabelling)
    (line : TokenLine) :
    TokenLine where
  body := line.body.map relabelling.token
  terminator := relabelling.token line.terminator
  inner := by
    intro token member
    obtain ⟨original, isOriginal, rfl⟩ := List.mem_map.mp member
    exact
      (relabelling.isLineEnd_kind original.kind).trans
        (line.inner original isOriginal)
  ended := (relabelling.isLineEnd_kind _).trans line.ended

/-- The same mismatch between changed tokens. -/
def mismatch
    (relabelling : Relabelling)
    (mismatch : Mismatch) :
    Mismatch where
  fitting := mismatch.fitting.map relabelling.token
  expected := mismatch.expected
  found := relabelling.token mismatch.found
  unread := mismatch.unread.map relabelling.token

end Relabelling

/-- The same error with a change in the token found. -/
def StatementError.mapFound
    (change : TokenKind → TokenKind) :
    StatementError → StatementError
  | .mismatch opClass expected found =>
      .mismatch opClass expected (change found)
  | .notAnOpcode found =>
      .notAnOpcode (change found)

/-- The same judgement on changed tokens. -/
def Judgement.relabel
    (relabelling : Relabelling) :
    Judgement → Judgement
  | .blank => .blank
  | .accepted instruction => .accepted instruction
  | .rejected error read unread =>
      .rejected (error.mapFound relabelling.kind)
        (read.map relabelling.token) (unread.map relabelling.token)

namespace Relabelling

variable (relabelling : Relabelling)

/-- A place admits a changed token exactly if it admits the token. -/
theorem admits_kind
    (place : Terminal)
    (found : TokenKind) :
    place.admits (relabelling.kind found) = place.admits found := by
  cases ended : found.isLineEnd with
  | false =>
      rw [relabelling.kind_inner found ended]
  | true =>
      have changedEnded := (relabelling.isLineEnd_kind found).trans ended
      by_cases inside : place = .endOfLine
      · rw [inside, Terminal.admits_endOfLine, Terminal.admits_endOfLine,
          changedEnded, ended]
      · rw [Terminal.admits_eq_false inside changedEnded,
          Terminal.admits_eq_false inside ended]

/-- A changed token gives the same number to an instruction. -/
theorem operand?_kind
    (found : TokenKind) :
    (relabelling.kind found).operand? = found.operand? := by
  cases ended : found.isLineEnd with
  | false =>
      rw [relabelling.kind_inner found ended]
  | true =>
      have changedEnded := (relabelling.isLineEnd_kind found).trans ended
      rw [TokenKind.operand?_of_ended ended,
        TokenKind.operand?_of_ended changedEnded]

/-- Changed tokens fit a pattern up to the same place. -/
theorem firstMismatch?_map
    (pattern : List Terminal)
    (tokens : List Token) :
    firstMismatch? pattern (tokens.map relabelling.token) =
      (firstMismatch? pattern tokens).map relabelling.mismatch := by
  induction pattern generalizing tokens with
  | nil =>
      rfl
  | cons place pattern inductionHypothesis =>
      cases tokens with
      | nil =>
          rfl
      | cons token rest =>
          have admitted := relabelling.admits_kind place token.kind
          rw [List.map_cons, firstMismatch?, firstMismatch?,
            inductionHypothesis, Relabelling.token, admitted]
          split
          · rw [Option.map_map, Option.map_map]
            rfl
          · rfl

theorem read_mismatch
    (mismatch : Mismatch) :
    (relabelling.mismatch mismatch).read =
      mismatch.read.map relabelling.token := by
  rw [Mismatch.read, Mismatch.read, List.map_append]
  rfl

/-- The judgement on a line survives the change of its tokens. -/
theorem judge_tokenLine
    (line : TokenLine) :
    (relabelling.tokenLine line).judge =
      line.judge.relabel relabelling := by
  have inner := line.inner
  have changedBody :
      (relabelling.tokenLine line).body =
        line.body.map relabelling.token := rfl
  have changedEnd :
      (relabelling.tokenLine line).terminator =
        relabelling.token line.terminator := rfl
  cases bodyShape : line.body with
  | nil =>
      rw [bodyShape] at changedBody
      rw [TokenLine.judge, TokenLine.judge, changedBody, bodyShape]
      rfl
  | cons first operands =>
      rw [bodyShape] at inner changedBody
      have unchanged : relabelling.kind first.kind = first.kind :=
        relabelling.kind_inner first.kind
          (inner first List.mem_cons_self)
      have sameKind : (relabelling.token first).kind = first.kind :=
        unchanged
      have remaining :
          operands.map relabelling.token ++
              [relabelling.token line.terminator] =
            (operands ++ [line.terminator]).map relabelling.token := by
        rw [List.map_append]
        rfl
      have values :
          (operands.map relabelling.token).filterMap (·.kind.operand?) =
            operands.filterMap (·.kind.operand?) := by
        rw [List.filterMap_map]
        apply List.filterMap_congr
        intro token _
        exact relabelling.operand?_kind token.kind
      rw [TokenLine.judge, TokenLine.judge, changedBody, bodyShape,
        changedEnd]
      simp only [List.map_cons, sameKind, remaining, values,
        relabelling.firstMismatch?_map]
      cases kind : first.kind with
      | opcode opcode =>
          dsimp only
          cases
            firstMismatch? opcode.opClass.pattern
              (operands ++ [line.terminator]) with
          | some mismatch =>
              simp only [Option.map_some, Judgement.relabel,
                List.map_cons, ← relabelling.read_mismatch]
              rfl
          | none =>
              simp only [Option.map_none]
              cases
                opcode.instruction?
                  (operands.filterMap (·.kind.operand?)) with
              | some instruction => rfl
              | none => rfl
      | _ =>
          rw [kind] at unchanged
          simp only [Judgement.relabel, StatementError.mapFound,
            unchanged, List.map_cons, List.map_nil]

/-- Changed tokens make up changed lines. -/
theorem cut_map
    (tokens : List Token) :
    TokenLine.cut (tokens.map relabelling.token) =
      (TokenLine.cut tokens).map relabelling.tokenLine := by
  induction tokens with
  | nil =>
      rfl
  | cons token rest inductionHypothesis =>
      have sameEnd := relabelling.isLineEnd_kind token.kind
      rw [List.map_cons]
      cases ended : token.kind.isLineEnd with
      | true =>
          rw [TokenLine.cut_cons_of_ended (sameEnd.trans ended),
            TokenLine.cut_cons_of_ended ended, inductionHypothesis]
          rfl
      | false =>
          cases restCut : TokenLine.cut rest with
          | nil =>
              rw [restCut] at inductionHypothesis
              have changedEnd :
                  (relabelling.token token).kind.isLineEnd = false :=
                sameEnd.trans ended
              simp [TokenLine.cut, changedEnd, inductionHypothesis,
                ended, restCut]
          | cons line lines =>
              rw [restCut] at inductionHypothesis
              rw [TokenLine.cut_cons_of_inner (sameEnd.trans ended)
                  inductionHypothesis,
                TokenLine.cut_cons_of_inner ended restCut]
              rfl

theorem instruction?_tokenLine
    (line : TokenLine) :
    (relabelling.tokenLine line).instruction? = line.instruction? := by
  rw [TokenLine.instruction?, TokenLine.instruction?,
    relabelling.judge_tokenLine]
  cases line.judge <;> rfl

theorem error?_tokenLine
    (line : TokenLine) :
    (relabelling.tokenLine line).error? =
      line.error?.map (StatementError.mapFound relabelling.kind) := by
  rw [TokenLine.error?, TokenLine.error?, relabelling.judge_tokenLine]
  cases line.judge <;> rfl

/-- Changed lines add the same instructions to the program. -/
theorem filterMap_instruction?
    (lines : List TokenLine) :
    (lines.map relabelling.tokenLine).filterMap
        TokenLine.instruction? =
      lines.filterMap TokenLine.instruction? := by
  rw [List.filterMap_map]
  apply List.filterMap_congr
  intro line _
  exact relabelling.instruction?_tokenLine line

/-- Changed lines are rejected where the lines are. -/
theorem diagnosticsFrom_map
    (number : Nat)
    (lines : List TokenLine) :
    TokenLine.diagnosticsFrom number
        (lines.map relabelling.tokenLine) =
      (TokenLine.diagnosticsFrom number lines).map fun diagnostic =>
        { diagnostic with
          error := diagnostic.error.mapFound relabelling.kind } := by
  induction lines generalizing number with
  | nil =>
      rfl
  | cons line lines inductionHypothesis =>
      rw [List.map_cons, TokenLine.diagnosticsFrom_cons,
        TokenLine.diagnosticsFrom_cons, List.map_append,
        inductionHypothesis, relabelling.error?_tokenLine]
      cases line.error? <;> rfl

end Relabelling

end Iloc
