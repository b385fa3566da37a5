import Iloc.Proofs.Scanner.Stream
import Iloc.Proofs.Scanner.TextLines

namespace Iloc

/-!
# The lines of tokens

The kinds of tokens almost tell their lines.  A token stands one line below the
one before it if that one begins a line.  Only the end of the text stands where
the line feeds of the text put it, since a comment that the end of the text ends
has no line feed to count.  Texts with as many line feeds and tokens of the same
kinds therefore have the same tokens.

Behind a line feed a text is scanned as if it began there, except that its lines
are numbered on.
-/

/-- Whether a token of some kind begins a new line. -/
def TokenKind.beginsLine (kind : TokenKind) : Bool :=
  kind = .newLine || kind = .comment

/-- Tokens of some kinds, the first of which stands on a given line. -/
def numberKinds : UInt32 → List TokenKind → List Token
  | _, [] => []
  | line, kind :: rest =>
      ⟨kind, line⟩ ::
        numberKinds (line + if kind.beginsLine then 1 else 0) rest

theorem map_kind_numberKinds
    (line : UInt32)
    (kinds : List TokenKind) :
    (numberKinds line kinds).map (·.kind) = kinds := by
  induction kinds generalizing line with
  | nil =>
      rfl
  | cons kind rest inductionHypothesis =>
      rw [numberKinds, List.map_cons, inductionHypothesis]

/-- Kinds are numbered on behind others, one line for each that begins one. -/
theorem numberKinds_append
    (line : UInt32)
    (kinds later : List TokenKind) :
    numberKinds line (kinds ++ later) =
      numberKinds line kinds ++
        numberKinds
          (line + UInt32.ofNat (kinds.countP TokenKind.beginsLine))
          later := by
  induction kinds generalizing line with
  | nil =>
      rw [List.countP_nil]
      exact congrArg (numberKinds · later) (UInt32.add_zero line).symm
  | cons kind rest inductionHypothesis =>
      have counted :
          line + (if kind.beginsLine then 1 else 0) +
              UInt32.ofNat (rest.countP TokenKind.beginsLine) =
            line +
              UInt32.ofNat
                ((kind :: rest).countP TokenKind.beginsLine) := by
        rw [List.countP_cons, UInt32.ofNat_add, UInt32.add_assoc,
          UInt32.add_comm (UInt32.ofNat _) (UInt32.ofNat _)]
        split <;> rfl
      rw [List.cons_append, numberKinds, inductionHypothesis, counted]
      rfl

/-- A token some lines further down. -/
def Token.shift (lines : UInt32) (token : Token) : Token :=
  { token with line := token.line + lines }

/-- Tokens are numbered alike from every line on. -/
theorem numberKinds_add
    (line lines : UInt32)
    (kinds : List TokenKind) :
    numberKinds (line + lines) kinds =
      (numberKinds line kinds).map (Token.shift lines) := by
  induction kinds generalizing line with
  | nil =>
      rfl
  | cons kind rest inductionHypothesis =>
      rw [numberKinds, numberKinds, List.map_cons, ← inductionHypothesis,
        UInt32.add_assoc, UInt32.add_assoc, UInt32.add_comm lines]
      rfl

/--
A lexeme holds a line feed exactly if its token begins a line, unless it is a
comment that the end of the text ends.
-/
theorem TokenKind.Shape.count_lineFeed
    {kind : TokenKind}
    {text following : List Char}
    (shape : kind.Shape text following)
    (inner : kind ≠ .eof) :
    text.count '\n' = (if kind.beginsLine then 1 else 0) ∨
      text.count '\n' = 0 ∧ following = [] := by
  have none
      (inLine : kind.isLineEnd = false) :
      text.count '\n' = 0 :=
    List.count_eq_zero_of_not_mem (shape.lineFeed_not_mem inLine)
  cases kind with
  | eof =>
      exact absurd rfl inner
  | newLine =>
      obtain rfl := shape
      exact Or.inl rfl
  | comment =>
      exact IsComment.count_lineFeed shape
  | _ =>
      exact Or.inl (none rfl)

namespace Tiling

variable {characters : List Char} {pieces : List Piece}

/-- The only token of the empty text is its end. -/
theorem map_kind_of_nil
    (tiling : Tiling [] pieces) :
    pieces.map (·.kind) = [.eof] := by
  generalize empty : ([] : List Char) = text at tiling
  cases tiling with
  | ended blank =>
      rfl
  | piece blank inner shape tail =>
      obtain ⟨first, more, rfl, -⟩ := shape.exists_cons inner
      simp at empty

/--
Numbered pieces are numbered kinds, and the end stands below all line feeds.
-/
theorem numbered_eq
    (tiling : Tiling characters pieces)
    (line : UInt32) :
    numbered line pieces =
      numberKinds line (pieces.map (·.kind)).dropLast ++
        [⟨.eof, line + UInt32.ofNat (characters.count '\n')⟩] := by
  induction tiling generalizing line with
  | @ended gap blank =>
      rw [Scanner.count_blanks blank]
      exact congrArg (fun line => [Token.mk .eof line]) (UInt32.add_zero line).symm
  | @piece gap text rest kind pieces blank inner shape tail
      inductionHypothesis =>
      have feeds :
          (gap ++ (text ++ rest)).count '\n' =
            text.count '\n' + rest.count '\n' := by
        rw [List.count_append, List.count_append,
          Scanner.count_blanks blank, Nat.zero_add]
      have nonempty : pieces.map (·.kind) ≠ [] := by
        obtain ⟨body, lastGap, rfl, -⟩ := tail.exists_body
        simp
      have sameTail :
          numberKinds (line + UInt32.ofNat (text.count '\n'))
              (pieces.map (·.kind)).dropLast =
            numberKinds (line + if kind.beginsLine then 1 else 0)
              (pieces.map (·.kind)).dropLast := by
        rcases shape.count_lineFeed inner with counted | ⟨-, rfl⟩
        · rw [counted]
          split <;> rfl
        · rw [tail.map_kind_of_nil]
          rfl
      rw [numbered, inductionHypothesis, sameTail, List.map_cons,
        List.dropLast_cons_of_ne_nil nonempty, numberKinds,
        feeds, UInt32.ofNat_add, ← UInt32.add_assoc]
      rfl

end Tiling

/-- The tokens of a text by their kinds and its line feeds. -/
theorem scan_eq_numberKinds
    (source : String) :
    scan source =
      numberKinds 1 (Text.innerKinds source.toList) ++
        [⟨.eof, 1 + UInt32.ofNat (source.toList.count '\n')⟩] := by
  have aligned := Scanner.Aligned.ofSource source
  have tiling : Tiling source.toList (Scanner.ofSource source).pieces :=
    Scanner.tiling_pieces _ aligned
  rw [scan, Scanner.tokens_eq_numbered _ aligned, Text.innerKinds,
    Text.kinds, Text.lexemes, String.ofList_toList]
  exact tiling.numbered_eq 1

/-- Texts have the same tokens if these are of the same kinds, line by line. -/
theorem scan_eq_of_kinds
    {source other : String}
    (sameKinds :
      Text.kinds source.toList = Text.kinds other.toList)
    (sameFeeds :
      source.toList.count '\n' = other.toList.count '\n') :
    scan source = scan other := by
  rw [scan_eq_numberKinds, scan_eq_numberKinds, Text.innerKinds,
    Text.innerKinds, sameKinds, sameFeeds]

namespace Text

/-- The token that a line feed behind a line is, unless its comment takes it. -/
def joint (line : List Char) : List TokenKind :=
  if uncommented line = line then [.newLine] else []

/-- The joint of a line is told by the tokens of the line. -/
theorem joint_eq
    {line : List Char}
    (inline : '\n' ∉ line) :
    joint line =
      if .comment ∈ innerKinds line then [] else [.newLine] := by
  have notInner : TokenKind.comment ∉ innerKinds (uncommented line) := by
    intro member
    cases isLineEnd_of_mem_innerKinds inline _ member
  rw [joint]
  by_cases whole : uncommented line = line
  · rw [whole] at notInner
    rw [if_pos whole, if_neg notInner]
  · have isComment : TokenKind.comment ∈ innerKinds line := by
      rw [innerKinds_line inline, if_neg whole]
      exact List.mem_append_right _ List.mem_cons_self
    rw [if_neg whole, if_pos isComment]

/-- A line with more lines behind it is scanned as it is alone. -/
theorem kinds_line_joint
    {line : List Char}
    (inline : '\n' ∉ line)
    (rest : List Char) :
    kinds (line ++ '\n' :: rest) =
      innerKinds line ++ joint line ++ kinds rest := by
  rw [kinds_line_append inline, innerKinds_line inline, lineEnd, joint]
  split
  · simp
  · simp

theorem innerKinds_line_joint
    {line : List Char}
    (inline : '\n' ∉ line)
    (rest : List Char) :
    innerKinds (line ++ '\n' :: rest) =
      innerKinds line ++ joint line ++ innerKinds rest := by
  rw [innerKinds, kinds_line_joint inline, kinds_eq rest,
    ← List.append_assoc, List.dropLast_concat]

/-- What stands behind the last line feed of a text. -/
def lastLine (characters : List Char) : List Char :=
  (characters.splitOn '\n').getLastD []

theorem lastLine_of_inline
    {line : List Char}
    (inline : '\n' ∉ line) :
    lastLine line = line := by
  rw [lastLine, List.splitOn_eq_singleton inline]
  rfl

theorem lastLine_append
    (characters rest : List Char) :
    lastLine (characters ++ '\n' :: rest) = lastLine rest := by
  obtain ⟨line, lines, shape⟩ :=
    List.exists_cons_of_ne_nil (rest.splitOn_ne_nil '\n')
  rw [lastLine, lastLine, List.splitOn_append_cons_self, shape,
    List.getLastD_eq_getLast?, List.getLastD_eq_getLast?,
    List.getLast?_append, List.getLast?_cons]
  rfl

/-- A text is scanned up to a line feed as it is alone. -/
theorem innerKinds_append_lineFeed
    (characters rest : List Char) :
    innerKinds (characters ++ '\n' :: rest) =
      innerKinds characters ++ joint (lastLine characters) ++
        innerKinds rest := by
  induction characters using induction_lines with
  | lastLine line inline =>
      rw [innerKinds_line_joint inline, lastLine_of_inline inline]
  | append line later inline inductionHypothesis =>
      rw [List.append_assoc, List.cons_append,
        innerKinds_line_joint inline, inductionHypothesis,
        innerKinds_line_joint inline, lastLine_append]
      simp only [List.append_assoc]

/-- The tokens of a text that begin lines are its line feeds, and a joint. -/
theorem countP_beginsLine_innerKinds
    (characters : List Char) :
    (innerKinds characters).countP TokenKind.beginsLine +
        (joint (lastLine characters)).countP TokenKind.beginsLine =
      characters.count '\n' + 1 := by
  have ofLine
      {line : List Char}
      (inline : '\n' ∉ line) :
      (innerKinds line).countP TokenKind.beginsLine +
          (joint line).countP TokenKind.beginsLine =
        1 := by
    have none :
        (innerKinds (uncommented line)).countP TokenKind.beginsLine =
          0 := by
      rw [List.countP_eq_zero]
      intro kind member begins
      have inner := isLineEnd_of_mem_innerKinds inline kind member
      simp only [TokenKind.beginsLine, Bool.or_eq_true,
        decide_eq_true_eq] at begins
      rcases begins with rfl | rfl
      · cases inner
      · cases inner
    rw [innerKinds_line inline, joint, List.countP_append, none]
    split <;> rfl
  induction characters using induction_lines with
  | lastLine line inline =>
      rw [lastLine_of_inline inline, ofLine inline,
        List.count_eq_zero_of_not_mem inline]
  | append line rest inline inductionHypothesis =>
      have first := ofLine inline
      rw [lastLine_append, innerKinds_line_joint inline,
        List.countP_append, List.countP_append, List.count_append,
        List.count_cons_self, List.count_eq_zero_of_not_mem inline]
      omega

/-- With its joint a text ends in a token that ends a line. -/
theorem exists_lineEnd
    (characters : List Char) :
    ∃ kinds last,
      innerKinds characters ++ joint (lastLine characters) =
          kinds ++ [last] ∧
        last.isLineEnd = true := by
  induction characters using induction_lines with
  | lastLine line inline =>
      rw [lastLine_of_inline inline, innerKinds_line inline, joint]
      split
      · exact ⟨_, .newLine, by rw [List.append_nil], rfl⟩
      · exact ⟨_, .comment, List.append_nil _, rfl⟩
  | append line rest inline inductionHypothesis =>
      obtain ⟨kinds, last, shape, ended⟩ := inductionHypothesis
      rw [lastLine_append, innerKinds_line_joint inline,
        List.append_assoc, shape, ← List.append_assoc]
      exact ⟨_, last, rfl, ended⟩

/-- The end of a text is no token before its end. -/
theorem eof_notMem_innerKinds
    (characters : List Char) :
    .eof ∉ innerKinds characters := by
  obtain ⟨body, gap, shape, inner, -⟩ :=
    (tiling_lexemes characters).exists_body
  rw [innerKinds, kinds, shape, List.map_append, List.map_cons,
    List.map_nil, List.dropLast_concat]
  intro member
  obtain ⟨piece, isPiece, isEnd⟩ := List.mem_map.mp member
  exact inner piece isPiece isEnd

theorem kind_ne_eof_of_mem_numberKinds
    (line : UInt32)
    (characters : List Char) :
    ∀ token ∈ numberKinds line (innerKinds characters),
      token.kind ≠ .eof := by
  intro token member isEnd
  apply eof_notMem_innerKinds characters
  rw [← map_kind_numberKinds line (innerKinds characters), ← isEnd]
  exact List.mem_map_of_mem member

/-- The token for the line feed behind a text stands on its last line. -/
theorem numberKinds_joint
    (characters : List Char) :
    let kinds := innerKinds characters
    numberKinds (1 + UInt32.ofNat (kinds.countP TokenKind.beginsLine))
        (joint (lastLine characters)) =
      (joint (lastLine characters)).map
        (⟨·, 1 + UInt32.ofNat (characters.count '\n')⟩) := by
  intro kinds
  have counted := countP_beginsLine_innerKinds characters
  rw [joint] at counted ⊢
  split at counted
  · rename_i whole
    have all :
        kinds.countP TokenKind.beginsLine = characters.count '\n' :=
      Nat.add_right_cancel counted
    rw [if_pos whole, all]
    rfl
  · rename_i commented
    rw [if_neg commented]
    rfl

end Text

/--
A text with a line feed and another text behind it: the tokens of the text but
its end, a token for the line feed unless a comment takes it, and the tokens of
the other text further down.
-/
theorem scan_append_lineFeed
    (first second : String) :
    let feeds := first.toList.count '\n'
    scan (first ++ "\n" ++ second) =
      (scan first).dropLast ++
        (Text.joint (Text.lastLine first.toList)).map
          (⟨·, 1 + UInt32.ofNat feeds⟩) ++
          (scan second).map (Token.shift (UInt32.ofNat (feeds + 1))) := by
  intro feeds
  have joined :
      (first ++ "\n" ++ second).toList =
        first.toList ++ '\n' :: second.toList := by
    simp
  have lastNumber :
      1 + UInt32.ofNat ((first ++ "\n" ++ second).toList.count '\n') =
        1 + UInt32.ofNat (second.toList.count '\n') +
          UInt32.ofNat (feeds + 1) := by
    rw [joined, List.count_append, List.count_cons_self,
      UInt32.add_assoc, ← UInt32.ofNat_add]
    congr 2
    omega
  rw [scan_eq_numberKinds, lastNumber, scan_eq_numberKinds first,
    scan_eq_numberKinds second, joined, Text.innerKinds_append_lineFeed,
    numberKinds_append, numberKinds_append, Text.numberKinds_joint,
    List.countP_append, Text.countP_beginsLine_innerKinds,
    numberKinds_add, List.dropLast_concat, List.map_append]
  simp only [List.append_assoc]
  rfl

end Iloc
