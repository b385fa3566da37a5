import Iloc.Proofs.Scanner.Reading

namespace Iloc

/-!
# Segmentation of a text into lexemes

Repeated reading cuts a text into pieces.  Every piece is a gap of blanks and
the lexeme after it, and the last piece is the end of the text.  Such a tiling
leaves no character out and uses none twice.

The shapes of the lexemes alone decide where the cuts are: a text has only one
tiling by lexemes of the shapes that their kinds demand.
-/

/-- A lexeme, its kind, and the gap before it. -/
structure Piece where
  gap : List Char
  kind : TokenKind
  text : List Char
  deriving DecidableEq

namespace Piece

/-- The characters of a piece, whatever its kind. -/
def segment (piece : Piece) : List Char × List Char :=
  (piece.gap, piece.text)

/-- All characters of a piece, in order. -/
def characters (piece : Piece) : List Char :=
  piece.gap ++ piece.text

end Piece

/--
Pieces tile a text when they follow one another from its beginning to its end,
when every gap is blank, and when every lexeme has the shape that its kind
demands of it and of the characters after it.
-/
inductive Tiling : List Char → List Piece → Prop where
  /-- Only blanks are left. -/
  | ended
      {gap : List Char}
      (blank : ∀ character ∈ gap, Text.isBlank character = true) :
      Tiling gap [⟨gap, .eof, []⟩]
  /-- A lexeme comes next. -/
  | piece
      {gap text rest : List Char}
      {kind : TokenKind}
      {pieces : List Piece}
      (blank : ∀ character ∈ gap, Text.isBlank character = true)
      (inner : kind ≠ .eof)
      (shape : kind.Shape text rest)
      (tail : Tiling rest pieces) :
      Tiling (gap ++ (text ++ rest)) (⟨gap, kind, text⟩ :: pieces)

namespace Tiling

variable {characters : List Char} {pieces : List Piece}

/-- The pieces of a tiling are the text, character by character. -/
theorem flatMap_characters
    (tiling : Tiling characters pieces) :
    pieces.flatMap Piece.characters = characters := by
  induction tiling with
  | ended blank =>
      simp [Piece.characters]
  | piece blank inner shape tail inductionHypothesis =>
      simp [Piece.characters, inductionHypothesis]

/-- The lexeme of the end is empty, and no other lexeme is. -/
theorem text_eq_nil_iff
    (tiling : Tiling characters pieces) :
    ∀ piece ∈ pieces, piece.text = [] ↔ piece.kind = .eof := by
  induction tiling with
  | ended blank =>
      intro piece member
      rw [List.mem_singleton.mp member]
      simp
  | piece blank inner shape tail inductionHypothesis =>
      intro piece member
      rcases List.mem_cons.mp member with isHead | inTail
      · obtain ⟨first, rest, textShape, -⟩ := shape.exists_cons inner
        rw [isHead]
        simp [textShape, inner]
      · exact inductionHypothesis piece inTail

/-- Where a lexeme is ahead, exactly the blanks before it are its gap. -/
private theorem gap_of_shape
    {gap text rest : List Char}
    {kind : TokenKind}
    (blank : ∀ character ∈ gap, Text.isBlank character = true)
    (shape : kind.Shape text rest) :
    (gap ++ (text ++ rest)).takeWhile Text.isBlank = gap ∧
      (gap ++ (text ++ rest)).dropWhile Text.isBlank = text ++ rest :=
  ⟨Text.takeWhile_run blank shape.endsRun_isBlank,
    Text.dropWhile_run blank shape.endsRun_isBlank⟩

/-- Where only blanks are left, no lexeme but that of the end is ahead. -/
private theorem not_all_blank
    {gap text rest : List Char}
    {kind : TokenKind}
    (inner : kind ≠ .eof)
    (shape : kind.Shape text rest)
    (allBlank :
      ∀ character ∈ gap ++ (text ++ rest),
        Text.isBlank character = true) :
    False := by
  obtain ⟨first, more, rfl, firstUnblank⟩ := shape.exists_cons inner
  have firstBlank := allBlank first (by simp)
  rw [firstUnblank] at firstBlank
  cases firstBlank

/-- Two tilings of one text cut it at the same places. -/
theorem segment_unique
    {others : List Piece}
    (tiling : Tiling characters pieces)
    (other : Tiling characters others) :
    pieces.map Piece.segment = others.map Piece.segment := by
  induction tiling generalizing others with
  | @ended gap blank =>
      generalize same : gap = characters at other
      cases other with
      | ended otherBlank =>
          subst same
          rfl
      | piece otherBlank inner shape tail =>
          subst same
          exact (not_all_blank inner shape blank).elim
  | @piece gap text rest kind pieces blank inner shape tail
      inductionHypothesis =>
      generalize same : gap ++ (text ++ rest) = characters at other
      cases other with
      | ended otherBlank =>
          subst same
          exact (not_all_blank inner shape otherBlank).elim
      | @piece otherGap otherText otherRest otherKind otherPieces
          otherBlank otherInner otherShape otherTail =>
          have gaps := gap_of_shape blank shape
          have otherGaps := gap_of_shape otherBlank otherShape
          rw [same] at gaps
          obtain rfl : gap = otherGap := gaps.1.symm.trans otherGaps.1
          obtain ⟨rfl, rfl⟩ :=
            shape.unique otherShape (gaps.2.symm.trans otherGaps.2)
          simp only [List.map_cons, inductionHypothesis otherTail,
            Piece.segment]

/--
Two tilings of one text are equal if both take the kind of every lexeme from
its text.
-/
theorem unique
    {others : List Piece}
    (tiling : Tiling characters pieces)
    (other : Tiling characters others)
    (classified : ∀ piece ∈ pieces, piece.kind = .ofLexeme piece.text)
    (otherClassified :
      ∀ piece ∈ others, piece.kind = .ofLexeme piece.text) :
    pieces = others := by
  have rebuild
      {items : List Piece}
      (kinds : ∀ piece ∈ items, piece.kind = .ofLexeme piece.text) :
      (items.map Piece.segment).map
          (fun segment =>
            ⟨segment.1, .ofLexeme segment.2, segment.2⟩) =
        items := by
    rw [List.map_map]
    refine (List.map_congr_left ?_).trans (List.map_id items)
    intro piece member
    simp [Piece.segment, ← kinds piece member]
  rw [← rebuild classified, ← rebuild otherClassified,
    tiling.segment_unique other]

end Tiling

/-- A reading takes the lexeme that stands behind the blanks ahead. -/
theorem Scanner.Reads.eq_of_shape
    {scanner : Scanner}
    {gap text : List Char}
    (reads : scanner.Reads gap text)
    {blanks lexeme following : List Char}
    {kind : TokenKind}
    (blank : ∀ character ∈ blanks, Text.isBlank character = true)
    (shape : kind.Shape lexeme following)
    (ahead : scanner.rest = blanks ++ (lexeme ++ following)) :
    text = lexeme ∧ scanner.next.2.rest = following := by
  have taken := (Tiling.gap_of_shape reads.blank reads.shape).2
  rw [← reads.rest_eq, ahead, (Tiling.gap_of_shape blank shape).2] at taken
  exact reads.shape.unique shape taken.symm

namespace Scanner

/--
The piece that the next reading cuts off, as the byte offsets before and after
it tell.
-/
def piece (scanner : Scanner) : Piece where
  gap :=
    (scanner.position.extract scanner.source
      scanner.next.2.start).toList
  kind := scanner.next.1.kind
  text := scanner.next.2.lexeme.toList

/-- The pieces still to be read, through the first end token. -/
def pieces (scanner : Scanner) : List Piece :=
  if scanner.next.1.kind = .eof then
    [scanner.piece]
  else
    scanner.piece :: scanner.next.2.pieces
termination_by scanner.rest.length
decreasing_by
  exact scanner.length_rest_next_lt ‹_›

theorem pieces_of_eof
    {scanner : Scanner}
    (ended : scanner.next.1.kind = .eof) :
    scanner.pieces = [scanner.piece] := by
  rw [pieces, if_pos ended]

theorem pieces_of_ne_eof
    {scanner : Scanner}
    (inner : scanner.next.1.kind ≠ .eof) :
    scanner.pieces = scanner.piece :: scanner.next.2.pieces := by
  rw [pieces, if_neg inner]

theorem tokens_of_eof
    {scanner : Scanner}
    (ended : scanner.next.1.kind = .eof) :
    scanner.tokens = [scanner.next.1] := by
  rw [tokens, if_pos ended]

theorem tokens_of_ne_eof
    {scanner : Scanner}
    (inner : scanner.next.1.kind ≠ .eof) :
    scanner.tokens = scanner.next.1 :: scanner.next.2.tokens := by
  rw [tokens, if_neg inner]

variable {scanner : Scanner} {earlier lexeme gap text : List Char}

/-- The offsets around a reading cut out what it skipped and what it took. -/
theorem piece_eq
    (aligned : scanner.Aligned earlier lexeme)
    (reads : scanner.Reads gap text) :
    scanner.piece = ⟨gap, scanner.next.1.kind, text⟩ := by
  have later := reads.aligned aligned
  have skipped :
      scanner.position.extract scanner.source scanner.next.2.start =
        String.ofList gap := by
    rw [aligned.source_eq, reads.rest_eq, aligned.position_eq,
      later.start_eq, String.utf8Len_append (earlier ++ lexeme),
      ← List.append_assoc, String.extract_of_valid]
  simp only [piece, skipped, later.lexeme_eq, String.toList_ofList]

/-- Induction over the readings that lead to the end of the text. -/
theorem induction_next
    {motive : Scanner → Prop}
    (ended :
      ∀ scanner : Scanner,
        scanner.next.1.kind = .eof → motive scanner)
    (inner :
      ∀ scanner : Scanner,
        scanner.next.1.kind ≠ .eof →
        motive scanner.next.2 → motive scanner)
    (scanner : Scanner) :
    motive scanner := by
  induction size : scanner.rest.length using Nat.strongRecOn
    generalizing scanner with
  | ind size inductionHypothesis =>
      by_cases isEnd : scanner.next.1.kind = .eof
      · exact ended scanner isEnd
      · have shorter := scanner.length_rest_next_lt isEnd
        rw [size] at shorter
        exact inner scanner isEnd
          (inductionHypothesis _ shorter scanner.next.2 rfl)

/-- The pieces that a scanner reads tile the characters ahead of it. -/
theorem tiling_pieces
    (scanner : Scanner)
    (aligned : scanner.Aligned earlier lexeme) :
    Tiling scanner.rest scanner.pieces := by
  induction scanner using induction_next generalizing earlier lexeme with
  | ended scanner isEnd =>
      obtain ⟨gap, text, reads⟩ := scanner.exists_reads
      have shape := reads.shape
      rw [isEnd] at shape
      obtain ⟨rfl, restShape⟩ := shape
      rw [pieces_of_eof isEnd, piece_eq aligned reads, isEnd,
        reads.rest_eq, restShape, List.append_nil, List.append_nil]
      exact .ended reads.blank
  | inner scanner inner inductionHypothesis =>
      obtain ⟨gap, text, reads⟩ := scanner.exists_reads
      rw [pieces_of_ne_eof inner, piece_eq aligned reads, reads.rest_eq]
      exact .piece reads.blank inner reads.shape
        (inductionHypothesis (reads.aligned aligned))

/-- The kind of every piece is the kind of its lexeme. -/
theorem classified_pieces
    (scanner : Scanner)
    (aligned : scanner.Aligned earlier lexeme) :
    ∀ piece ∈ scanner.pieces, piece.kind = .ofLexeme piece.text := by
  induction scanner using induction_next generalizing earlier lexeme with
  | ended scanner isEnd =>
      obtain ⟨gap, text, reads⟩ := scanner.exists_reads
      rw [pieces_of_eof isEnd, piece_eq aligned reads]
      intro piece member
      rw [List.mem_singleton] at member
      subst member
      exact reads.kind_eq aligned
  | inner scanner inner inductionHypothesis =>
      obtain ⟨gap, text, reads⟩ := scanner.exists_reads
      rw [pieces_of_ne_eof inner, piece_eq aligned reads]
      intro piece member
      rcases List.mem_cons.mp member with isHead | inTail
      · subst isHead
        exact reads.kind_eq aligned
      · exact inductionHypothesis (reads.aligned aligned) piece inTail

end Scanner

/-- The tokens of successive pieces, the first of which starts on a line. -/
def numbered : UInt32 → List Piece → List Token
  | _, [] => []
  | line, piece :: rest =>
      ⟨piece.kind, line⟩ ::
        numbered (line + UInt32.ofNat (piece.text.count '\n')) rest

/-- The lines of tokens count the line feeds in the lexemes before them. -/
theorem Scanner.tokens_eq_numbered
    {earlier lexeme : List Char}
    (scanner : Scanner)
    (aligned : scanner.Aligned earlier lexeme) :
    scanner.tokens = numbered scanner.line scanner.pieces := by
  induction scanner using Scanner.induction_next
    generalizing earlier lexeme with
  | ended scanner isEnd =>
      rw [Scanner.tokens_of_eof isEnd, Scanner.pieces_of_eof isEnd]
      rfl
  | inner scanner inner inductionHypothesis =>
      obtain ⟨gap, text, reads⟩ := scanner.exists_reads
      rw [Scanner.tokens_of_ne_eof inner, Scanner.pieces_of_ne_eof inner,
        inductionHypothesis (reads.aligned aligned), reads.line_eq,
        Scanner.piece_eq aligned reads]
      rfl

/-- The kinds of numbered pieces are the kinds of the pieces. -/
theorem map_kind_numbered
    (line : UInt32)
    (pieces : List Piece) :
    (numbered line pieces).map (·.kind) = pieces.map (·.kind) := by
  induction pieces generalizing line with
  | nil =>
      rfl
  | cons piece rest inductionHypothesis =>
      simp only [numbered, List.map_cons, inductionHypothesis]

/--
The lexemes that repeated reading yields tile the text: their gaps are blank,
they have the shapes that their kinds demand, and together they are all of the
text.  Only the end of the text has an empty lexeme, and every lexeme has the
kind that its text alone decides.  No other cut of the text into lexemes of
such shapes exists.
-/
theorem scan_segmentation
    (source : String) :
    let pieces := (Scanner.ofSource source).pieces
    Tiling source.toList pieces ∧
      pieces.map (·.kind) = (scan source).map (·.kind) ∧
      pieces.flatMap Piece.characters = source.toList ∧
      (∀ piece ∈ pieces,
        piece.kind = .ofLexeme piece.text ∧
          (piece.text = [] ↔ piece.kind = .eof)) ∧
      ∀ others, Tiling source.toList others →
        others.map Piece.segment = pieces.map Piece.segment := by
  have aligned := Scanner.Aligned.ofSource source
  intro pieces
  have tiling : Tiling source.toList pieces :=
    Scanner.tiling_pieces _ aligned
  have classified := Scanner.classified_pieces _ aligned
  refine ⟨tiling, ?_, tiling.flatMap_characters, ?_, ?_⟩
  · rw [scan, Scanner.tokens_eq_numbered _ aligned, map_kind_numbered]
  · intro piece member
    exact ⟨classified piece member, tiling.text_eq_nil_iff piece member⟩
  · intro others other
    exact other.segment_unique tiling

end Iloc
