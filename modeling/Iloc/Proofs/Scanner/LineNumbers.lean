import Iloc.Proofs.Scanner.Joining
import Iloc.Proofs.Scanner.LineCount
import Iloc.Proofs.Scanner.Pulling

namespace Iloc

/-!
# The lines of tokens, by characters and by tokens

The line of a token counts the line feeds before its lexeme.  A reader of the
token list, who does not see the characters, counts the line feed tokens and the
comments before the token instead, and comes to the same line.

There is one exception.  A comment that the end of the text ends has no line
feed, so the end behind it stands one line higher than the tokens tell.
-/

/-- The characters before the lexeme of a piece in some place of a tiling. -/
def Piece.before
    (piece : Piece)
    (pieces : List Piece)
    (place : Nat) :
    List Char :=
  (pieces.take place).flatMap Piece.characters ++ piece.gap

/-- The piece before some place is a comment that the end of the text ends. -/
def BehindOpenComment (pieces : List Piece) (place : Nat) : Prop :=
  ∃ comment ∈ (pieces.take place).getLast?, comment.IsOpenComment

namespace Tiling

variable {characters : List Char} {pieces : List Piece}

/-- A piece has its characters before it, its lexeme, and the rest behind it. -/
theorem split_before
    (tiling : Tiling characters pieces)
    {place : Nat}
    {piece : Piece}
    (isThere : pieces[place]? = some piece) :
    ∃ following,
      characters =
        piece.before pieces place ++ (piece.text ++ following) := by
  obtain ⟨inRange, isPiece⟩ := List.getElem?_eq_some_iff.mp isThere
  refine ⟨(pieces.drop (place + 1)).flatMap Piece.characters, ?_⟩
  have split :
      pieces = pieces.take place ++ piece :: pieces.drop (place + 1) := by
    rw [← isPiece, List.getElem_cons_drop, List.take_append_drop]
  rw [← tiling.flatMap_characters, congrArg (List.flatMap _) split,
    List.flatMap_append, List.flatMap_cons, Piece.characters, Piece.before]
  simp only [List.append_assoc]

/-- No line feed stands before the first lexeme. -/
theorem count_before_first
    {piece : Piece}
    (blank : ∀ character ∈ piece.gap, Text.isBlank character = true)
    (pieces : List Piece) :
    (piece.before pieces 0).count '\n' = 0 := by
  rw [Piece.before, List.take_zero, List.flatMap_nil, List.nil_append,
    Scanner.count_blanks blank]

/-- Numbered pieces count the line feeds in the characters before them. -/
theorem getElem?_numbered
    (tiling : Tiling characters pieces)
    (line : UInt32)
    {place : Nat}
    {piece : Piece}
    (isThere : pieces[place]? = some piece) :
    (numbered line pieces)[place]? =
      some ⟨piece.kind,
        line +
          UInt32.ofNat ((piece.before pieces place).count '\n')⟩ := by
  induction tiling generalizing line place with
  | @ended gap blank =>
      cases place with
      | zero =>
          obtain rfl := Option.some.inj isThere
          rw [count_before_first blank]
          exact
            congrArg (fun line => some (Token.mk .eof line))
              (UInt32.add_zero line).symm
      | succ place =>
          cases isThere
  | @piece gap text rest kind pieces blank inner shape tail
      inductionHypothesis =>
      cases place with
      | zero =>
          obtain rfl := Option.some.inj isThere
          rw [count_before_first blank]
          exact
            congrArg (fun line => some (Token.mk kind line))
              (UInt32.add_zero line).symm
      | succ place =>
          have feeds :
              (piece.before (⟨gap, kind, text⟩ :: pieces)
                  (place + 1)).count '\n' =
                text.count '\n' +
                  (piece.before pieces place).count '\n' := by
            simp only [Piece.before, Piece.characters,
              List.take_succ_cons, List.flatMap_cons, List.count_append,
              Scanner.count_blanks blank]
            omega
          rw [numbered, List.getElem?_cons_succ, feeds, UInt32.ofNat_add,
            ← UInt32.add_assoc]
          exact
            inductionHypothesis
              (line + UInt32.ofNat (text.count '\n')) isThere

/-- Only line feed tokens and comments hold a line feed. -/
theorem beginsLine_of_lineFeed_mem
    (tiling : Tiling characters pieces)
    {piece : Piece}
    (member : piece ∈ pieces)
    (lineFeed : '\n' ∈ piece.text) :
    piece.kind = .newLine ∨ piece.kind = .comment := by
  obtain ⟨earlier, following, -, shape⟩ :=
    tiling.shape_of_mem piece member
  cases kind : piece.kind with
  | newLine =>
      exact Or.inl rfl
  | comment =>
      exact Or.inr rfl
  | eof =>
      rw [(tiling.text_eq_nil_iff piece member).mpr kind] at lineFeed
      cases lineFeed
  | _ =>
      refine absurd lineFeed (shape.lineFeed_not_mem ?_)
      rw [kind]
      rfl

end Tiling

/-- Among pieces before the end an open comment can only be the last one. -/
theorem endsOpen_iff_getLast?
    {pieces : List Piece}
    (inner : ∀ piece ∈ pieces, piece.kind ≠ .eof) :
    EndsOpen pieces ↔
      ∃ comment ∈ pieces.getLast?, comment.IsOpenComment := by
  constructor
  · intro endsOpen
    induction endsOpen with
    | @last comment ends isOpen onlyEnds =>
        have none : ends = [] := by
          apply List.eq_nil_iff_forall_not_mem.mpr
          intro later member
          exact inner later (List.mem_cons_of_mem _ member)
            (onlyEnds later member)
        rw [none]
        exact ⟨comment, rfl, isOpen⟩
    | @cons first rest tail inductionHypothesis =>
        obtain ⟨comment, isLast, isOpen⟩ :=
          inductionHypothesis (List.forall_mem_cons.mp inner).2
        refine ⟨comment, ?_, isOpen⟩
        rw [List.getLast?_cons, Option.mem_def.mp isLast]
        rfl
  · rintro ⟨comment, isLast, isOpen⟩
    obtain ⟨earlier, rfl⟩ := List.getLast?_eq_some_iff.mp isLast
    clear inner isLast
    induction earlier with
    | nil =>
        exact .last isOpen (List.forall_mem_nil _)
    | cons first rest inductionHypothesis =>
        exact .cons first inductionHypothesis

namespace Scanner

variable {scanner : Scanner}

/-- The line of a scanner counts the line feeds that it has read. -/
theorem toNat_line_afterReadings
    (small : scanner.line.toNat + scanner.lineFeeds < UInt32.size)
    (number : Nat) :
    (scanner.afterReadings number).line.toNat +
        (scanner.afterReadings number).lineFeeds =
      scanner.line.toNat + scanner.lineFeeds := by
  have counted :=
    toNat_line_skip (List.replicate number scanner.next.1) small
  rw [skip_eq_afterReadings, List.length_replicate] at counted
  exact counted

/-- What has been read and what is still ahead are all of the text. -/
theorem exists_consumed
    (scanner : Scanner)
    (number : Nat) :
    ∃ consumed,
      scanner.rest = consumed ++ (scanner.afterReadings number).rest := by
  induction number generalizing scanner with
  | zero =>
      exact ⟨[], rfl⟩
  | succ number inductionHypothesis =>
      obtain ⟨first, taken⟩ := scanner.rest_next_suffix
      obtain ⟨others, shape⟩ := inductionHypothesis scanner.next.2
      refine ⟨first ++ others, ?_⟩
      rw [← taken, shape, List.append_assoc]
      rfl

/-- There is one piece for every token. -/
theorem length_pieces
    {earlier lexeme : List Char}
    (scanner : Scanner)
    (aligned : scanner.Aligned earlier lexeme) :
    scanner.pieces.length = scanner.tokens.length := by
  have kinds := map_kind_numbered scanner.line scanner.pieces
  rw [← scanner.tokens_eq_numbered aligned] at kinds
  rw [← List.length_map (·.kind), ← kinds, List.length_map]

/-- No piece before the last one is the end of the text. -/
theorem inner_of_mem_take
    {earlier lexeme : List Char}
    (scanner : Scanner)
    (aligned : scanner.Aligned earlier lexeme)
    {place : Nat}
    (inRange : place < scanner.tokens.length) :
    ∀ piece ∈ scanner.pieces.take place, piece.kind ≠ .eof := by
  obtain ⟨body, gap, shape, inner, -⟩ :=
    (scanner.tiling_pieces aligned).exists_body
  have length := scanner.length_pieces aligned
  rw [shape, List.length_append, List.length_singleton] at length
  intro piece member
  rw [shape, List.take_append_of_le_length (by omega)] at member
  exact inner piece (List.mem_of_mem_take member)

/--
The line of a token counts the tokens before it that begin a line, except that
the end of the text behind an open comment stands one line higher.
-/
theorem toNat_line_eq_tokens
    {earlier lexeme : List Char}
    (aligned : scanner.Aligned earlier lexeme)
    (small : scanner.line.toNat + scanner.lineFeeds < UInt32.size)
    {place : Nat}
    {token : Token}
    (isToken : scanner.tokens[place]? = some token) :
    let begun := (scanner.tokens.take place).countP Token.beginsLine
    ¬ BehindOpenComment scanner.pieces place ∧
        token.line.toNat = scanner.line.toNat + begun ∨
      BehindOpenComment scanner.pieces place ∧
        token.kind = .eof ∧
        token.line.toNat + 1 = scanner.line.toNat + begun := by
  intro begun
  have inRange : place < scanner.tokens.length :=
    (List.getElem?_eq_some_iff.mp isToken).1
  have behind :
      scanner.skip (scanner.tokens.take place) =
        scanner.afterReadings place := by
    rw [skip_eq_afterReadings, List.length_take,
      Nat.min_eq_left (Nat.le_of_lt inRange)]
  have isNext : token = (scanner.afterReadings place).next.1 := by
    rw [next_afterReadings, tokenAt_of_getElem? isToken]
  have line := toNat_line_afterReadings small place
  have counted := scanner.countP_beginsLine_take aligned place
  dsimp only at counted
  rw [behind, endsOpen_iff_getLast?
    (scanner.inner_of_mem_take aligned inRange)] at counted
  rw [isNext, line_next]
  rcases counted with ⟨isOpen, atEnd, total⟩ | ⟨closed, total⟩
  · exact Or.inr ⟨isOpen, atEnd, by omega⟩
  · exact Or.inl ⟨closed, by omega⟩

/-- Reading never goes back to an earlier line. -/
theorem line_le_line_next
    (small : scanner.line.toNat + scanner.lineFeeds < UInt32.size) :
    scanner.line ≤ scanner.next.2.line := by
  obtain ⟨gap, text, reads⟩ := scanner.exists_reads
  have total := toNat_line_next small
  have counted := lineFeeds_eq reads
  rw [UInt32.le_iff_toNat_le]
  omega

/-- The lines of the tokens ahead never decrease. -/
theorem ascending_tokens
    (scanner : Scanner)
    (small : scanner.line.toNat + scanner.lineFeeds < UInt32.size) :
    scanner.tokens.Pairwise (·.line ≤ ·.line) ∧
      ∀ token ∈ scanner.tokens, scanner.line ≤ token.line := by
  induction scanner using induction_next with
  | ended scanner isEnd =>
      rw [tokens_of_eof isEnd]
      exact
        ⟨List.pairwise_singleton _ _,
          List.forall_mem_singleton.mpr (UInt32.le_refl _)⟩
  | inner scanner inner inductionHypothesis =>
      have notBack := line_le_line_next small
      rw [← toNat_line_next small] at small
      obtain ⟨ascending, behind⟩ := inductionHypothesis small
      have later :
          ∀ token ∈ scanner.next.2.tokens, scanner.line ≤ token.line :=
        fun token member =>
          UInt32.le_trans notBack (behind token member)
      rw [tokens_of_ne_eof inner]
      exact
        ⟨List.pairwise_cons.mpr ⟨later, ascending⟩,
          List.forall_mem_cons.mpr ⟨UInt32.le_refl _, later⟩⟩

end Scanner

variable {source : String}

/-- The line of a token counts the line feeds before its lexeme. -/
theorem toNat_line_eq_lineFeeds
    (small : source.toList.count '\n' + 3 ≤ UInt32.size)
    {place : Nat}
    {token : Token}
    {piece : Piece}
    (isToken : (scan source)[place]? = some token)
    (isPiece : (Scanner.ofSource source).pieces[place]? = some piece) :
    token.kind = piece.kind ∧
      token.line.toNat =
        1 +
          (piece.before (Scanner.ofSource source).pieces
            place).count '\n' := by
  have aligned := Scanner.Aligned.ofSource source
  have tiling : Tiling source.toList (Scanner.ofSource source).pieces :=
    Scanner.tiling_pieces _ aligned
  obtain ⟨following, split⟩ := tiling.split_before isPiece
  have numberedThere := tiling.getElem?_numbered 1 isPiece
  rw [scan, Scanner.tokens_eq_numbered _ aligned] at isToken
  obtain rfl := Option.some.inj (isToken.symm.trans numberedThere)
  refine ⟨rfl, ?_⟩
  have total := congrArg (List.count '\n') split
  rw [List.count_append] at total
  have size : UInt32.size = 2 ^ 32 := rfl
  generalize
    (piece.before (Scanner.ofSource source).pieces place).count '\n' =
      feeds at total
  have exactFeeds : (UInt32.ofNat feeds).toNat = feeds :=
    UInt32.toNat_ofNat_of_lt (by omega)
  rw [UInt32.toNat_add, exactFeeds]
  apply Nat.mod_eq_of_lt
  show 1 + feeds < 2 ^ 32
  omega

/-- No token stands below all line feeds of its text. -/
theorem toNat_line_le_of_mem_scan
    (small : source.toList.count '\n' + 3 ≤ UInt32.size)
    {token : Token}
    (member : token ∈ scan source) :
    token.line.toNat ≤ 1 + source.toList.count '\n' := by
  have aligned := Scanner.Aligned.ofSource source
  obtain ⟨place, isToken⟩ := List.mem_iff_getElem?.mp member
  have inRange : place < (Scanner.ofSource source).pieces.length := by
    rw [Scanner.length_pieces _ aligned]
    exact (List.getElem?_eq_some_iff.mp isToken).1
  have isPiece := List.getElem?_eq_getElem inRange
  obtain ⟨-, line⟩ := toNat_line_eq_lineFeeds small isToken isPiece
  obtain ⟨following, split⟩ :=
    (Scanner.tiling_pieces _ aligned).split_before isPiece
  have total : source.toList.count '\n' = _ :=
    congrArg (List.count '\n') split
  rw [List.count_append] at total
  omega

/--
How the line of the token in some place of a text counts what stands before it,
where the token is that of a piece of the text.
-/
structure Token.Counts
    (token : Token)
    (source : String)
    (place : Nat)
    (piece : Piece) :
    Prop where
  /-- The piece stands in the same place as the token. -/
  isPiece : (Scanner.ofSource source).pieces[place]? = some piece
  /-- It is the piece of the token. -/
  kind_eq : token.kind = piece.kind
  /-- Its characters stand in the text behind those of earlier pieces. -/
  split :
    ∃ following,
      source.toList =
        piece.before (Scanner.ofSource source).pieces place ++
          (piece.text ++ following)
  /-- The line counts the line feeds before the lexeme. -/
  lineFeeds :
    token.line.toNat =
      1 +
        (piece.before (Scanner.ofSource source).pieces place).count '\n'
  /-- It counts the earlier tokens that begin a line as well. -/
  tokens :
    ¬ BehindOpenComment (Scanner.ofSource source).pieces place →
      token.line.toNat =
        1 + ((scan source).take place).countP Token.beginsLine
  /-- Only the end behind an open comment stands one line higher. -/
  openComment :
    BehindOpenComment (Scanner.ofSource source).pieces place →
      token.kind = .eof ∧
        token.line.toNat + 1 =
          1 + ((scan source).take place).countP Token.beginsLine

/--
The line of a token is told by the characters before its lexeme and, apart from
an end behind an open comment, by the tokens before it.  The line of a scanner
is told by the characters that it has read, however often it is asked.

Only line feed tokens and comments hold a line feed, and lines never decrease
from one token to the next.
-/
theorem line_numbers
    (source : String)
    (small : source.toList.count '\n' ≤ 2 ^ 32 - 3) :
    let scanner := Scanner.ofSource source
    (∀ (place : Nat) (token : Token),
      (scan source)[place]? = some token →
        ∃ piece, token.Counts source place piece) ∧
      (∀ number, ∃ consumed,
        source.toList =
            consumed ++ (scanner.afterReadings number).rest ∧
          (scanner.afterReadings number).line.toNat =
            1 + consumed.count '\n') ∧
      scanner.pieces.length = (scan source).length ∧
      (∀ piece ∈ scanner.pieces,
        '\n' ∈ piece.text →
          piece.kind = .newLine ∨ piece.kind = .comment) ∧
      (scan source).Pairwise (·.line ≤ ·.line) := by
  have size : UInt32.size = 2 ^ 32 := rfl
  have noWrap : source.toList.count '\n' + 3 ≤ UInt32.size := by
    omega
  intro scanner
  have aligned : scanner.Aligned [] [] := .ofSource source
  have tiling : Tiling source.toList scanner.pieces :=
    scanner.tiling_pieces aligned
  have lengths : scanner.pieces.length = (scan source).length :=
    scanner.length_pieces aligned
  have bounded :
      scanner.line.toNat + scanner.lineFeeds < UInt32.size := by
    show 1 + source.toList.count '\n' < UInt32.size
    omega
  refine ⟨?_, ?_, lengths, ?_, (scanner.ascending_tokens bounded).1⟩
  · intro place token isToken
    have inRange : place < scanner.pieces.length := by
      rw [lengths]
      exact (List.getElem?_eq_some_iff.mp isToken).1
    have isPiece := List.getElem?_eq_getElem inRange
    obtain ⟨sameKind, byLineFeeds⟩ :=
      toNat_line_eq_lineFeeds noWrap isToken isPiece
    have byTokens := Scanner.toNat_line_eq_tokens aligned bounded isToken
    refine ⟨_, isPiece, sameKind, tiling.split_before isPiece,
      byLineFeeds, ?_, ?_⟩
    · intro closed
      rcases byTokens with ⟨-, counted⟩ | ⟨isOpen, -⟩
      · exact counted
      · exact absurd isOpen closed
    · intro isOpen
      rcases byTokens with ⟨closed, -⟩ | ⟨-, isEnd⟩
      · exact absurd isOpen closed
      · exact isEnd
  · intro number
    obtain ⟨consumed, split⟩ := scanner.exists_consumed number
    refine ⟨consumed, split, ?_⟩
    have line := Scanner.toNat_line_afterReadings bounded number
    have total : scanner.lineFeeds = _ := congrArg (List.count '\n') split
    have first : scanner.line.toNat = 1 := rfl
    rw [first, total, List.count_append, Scanner.lineFeeds] at line
    omega
  · intro piece member
    exact tiling.beginsLine_of_lineFeed_mem member

/--
A comment with its line feed and one that the text ends in.  The end stands on
the line of the open comment, though three tokens before it begin a line.
-/
theorem line_numbers_open_comment :
    let source := "nop\n//\n// end"
    let pieces := (Scanner.ofSource source).pieces
    source.toList.count '\n' ≤ 2 ^ 32 - 3 ∧
      scan source =
        [⟨.opcode .nop, 1⟩, ⟨.newLine, 1⟩, ⟨.comment, 2⟩,
          ⟨.comment, 3⟩, ⟨.eof, 3⟩] ∧
      BehindOpenComment pieces 4 ∧
      ∃ piece, (Token.mk .eof 3).Counts source 4 piece := by
  intro source pieces
  have small : source.toList.count '\n' ≤ 2 ^ 32 - 3 := by
    decide
  have tokens :
      scan source =
        [⟨.opcode .nop, 1⟩, ⟨.newLine, 1⟩, ⟨.comment, 2⟩,
          ⟨.comment, 3⟩, ⟨.eof, 3⟩] := by
    decide +kernel
  have isOpen : BehindOpenComment pieces 4 := by
    refine ⟨⟨[], .comment, "// end".toList⟩, ?_, rfl, by decide⟩
    decide +kernel
  obtain ⟨counts, -⟩ := line_numbers source small
  exact ⟨small, tokens, isOpen, counts 4 _ (by rw [tokens]; rfl)⟩

end Iloc
