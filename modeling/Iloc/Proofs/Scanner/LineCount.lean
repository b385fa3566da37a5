import Iloc.Proofs.Scanner.Stream

namespace Iloc

/-!
# Two ways of counting lines

A scanner counts line feeds, and a reader of its tokens counts the tokens that
begin a line.  Both counts grow together, because every line feed belongs to a
token that begins a line.  They differ by one where the end of the text ends a
comment, and then nothing but the end is left to be read.
-/

/-- A text has one line more than it has line feeds. -/
theorem Text.length_splitOn_lineFeed
    (characters : List Char) :
    (characters.splitOn '\n').length = characters.count '\n' + 1 := by
  induction characters with
  | nil =>
      rfl
  | cons first rest inductionHypothesis =>
      rw [List.splitOn_cons_eq_if_modifyHead, List.count_cons]
      by_cases isLineFeed : first == '\n'
      · rw [if_pos isLineFeed, if_pos isLineFeed, List.length_cons,
          inductionHypothesis]
      · rw [if_neg isLineFeed, if_neg isLineFeed, List.length_modifyHead,
          inductionHypothesis]

/-- A comment that the end of the text ends. -/
def Piece.IsOpenComment (piece : Piece) : Prop :=
  piece.kind = .comment ∧ '\n' ∉ piece.text

/-- The last piece, ends of the text apart, is a comment without line feed. -/
inductive EndsOpen : List Piece → Prop where
  | last
      {piece : Piece}
      {ends : List Piece}
      (isOpen : piece.IsOpenComment)
      (onlyEnds : ∀ later ∈ ends, later.kind = .eof) :
      EndsOpen (piece :: ends)
  | cons
      (piece : Piece)
      {pieces : List Piece}
      (tail : EndsOpen pieces) :
      EndsOpen (piece :: pieces)

theorem endsOpen_cons_iff
    {piece : Piece}
    {pieces : List Piece}
    (closed : ¬ piece.IsOpenComment) :
    EndsOpen (piece :: pieces) ↔ EndsOpen pieces := by
  constructor
  · intro endsOpen
    cases endsOpen with
    | last isOpen onlyEnds =>
        exact absurd isOpen closed
    | cons _ tail =>
        exact tail
  · exact EndsOpen.cons piece

theorem not_endsOpen_nil : ¬ EndsOpen [] := by
  intro endsOpen
  cases endsOpen

namespace Scanner

variable {scanner : Scanner}

/-- What reading adds to the line it takes from the line feeds ahead. -/
theorem toNat_line_next
    (small : scanner.line.toNat + scanner.lineFeeds < UInt32.size) :
    scanner.next.2.line.toNat + scanner.next.2.lineFeeds =
      scanner.line.toNat + scanner.lineFeeds := by
  obtain ⟨gap, text, reads⟩ := scanner.exists_reads
  have counted := lineFeeds_eq reads
  have size : UInt32.size = 2 ^ 32 := rfl
  rw [reads.line_eq, UInt32.toNat_add, UInt32.toNat_ofNat',
    Nat.mod_eq_of_lt, Nat.mod_eq_of_lt]
  · omega
  · omega
  · rw [Nat.mod_eq_of_lt] <;> omega

/-- The line of a scanner counts the line feeds it has read, without a wrap. -/
theorem toNat_line_skip
    (tokens : List Token)
    (small : scanner.line.toNat + scanner.lineFeeds < UInt32.size) :
    (scanner.skip tokens).line.toNat + (scanner.skip tokens).lineFeeds =
      scanner.line.toNat + scanner.lineFeeds := by
  induction tokens generalizing scanner with
  | nil =>
      rfl
  | cons token rest inductionHypothesis =>
      have step := toNat_line_next small
      rw [← step] at small ⊢
      exact inductionHypothesis small

/-- No token ahead stands on a line beyond the last one. -/
theorem toNat_line_le_of_ahead
    {tokens : List Token}
    (ahead : scanner.Ahead tokens)
    (small : scanner.line.toNat + scanner.lineFeeds < UInt32.size) :
    ∀ token ∈ tokens,
      token.line.toNat ≤ scanner.line.toNat + scanner.lineFeeds := by
  induction tokens generalizing scanner with
  | nil =>
      exact List.forall_mem_nil _
  | cons first rest inductionHypothesis =>
      have step := toNat_line_next small
      intro token member
      rcases List.mem_cons.mp member with isFirst | inRest
      · rw [isFirst, ← ahead.1, line_next]
        exact Nat.le_add_right _ _
      · rw [← step] at small ⊢
        exact inductionHypothesis ahead.2 small token inRest

/--
A token begins a line for a line feed in its lexeme.  Only an open comment does
so for the end of the text.
-/
theorem beginsLine_next
    {earlier lexeme : List Char}
    (aligned : scanner.Aligned earlier lexeme) :
    scanner.piece.IsOpenComment ∧ scanner.next.1.beginsLine = true ∧
        scanner.next.2.rest = [] ∧ scanner.lineFeeds = 0 ∨
      ¬ scanner.piece.IsOpenComment ∧
        [scanner.next.1].countP Token.beginsLine +
            scanner.next.2.lineFeeds =
          scanner.lineFeeds := by
  obtain ⟨gap, text, reads⟩ := scanner.exists_reads
  have shape := reads.shape
  have counted := lineFeeds_eq reads
  rw [piece_eq aligned reads, Piece.IsOpenComment,
    List.countP_singleton, Token.beginsLine]
  cases kind : scanner.next.1.kind with
  | newLine =>
      rw [kind] at shape
      obtain rfl := shape
      right
      simpa using counted.symm
  | comment =>
      rw [kind] at shape
      rcases shape.count_lineFeed with one | ⟨none, restShape⟩
      · have closed : '\n' ∈ text := by
          rw [← List.count_pos_iff, one]
          exact Nat.one_pos
        right
        simp [closed, counted, one]
      · have isOpen : '\n' ∉ text := List.count_eq_zero.mp none
        have last : scanner.next.2.lineFeeds = 0 := by
          rw [lineFeeds, restShape]
          rfl
        left
        simp [isOpen, counted, none, restShape, last]
  | eof =>
      rw [kind] at shape
      right
      simp [counted, shape.1]
  | _ =>
      have none : text.count '\n' = 0 := by
        apply List.count_eq_zero_of_not_mem
        apply shape.lineFeed_not_mem
        rw [kind]
        rfl
      right
      simp [counted, none]

theorem countP_beginsLine_of_atEnd
    (atEnd : scanner.AtEnd)
    (number : Nat) :
    (scanner.tokens.take number).countP Token.beginsLine = 0 := by
  rw [tokens_of_atEnd atEnd, List.countP_eq_zero]
  intro token member
  rw [List.mem_singleton.mp (List.mem_of_mem_take member)]
  exact Bool.false_ne_true

/--
The tokens read so far that begin a line make up for the line feeds read so
far.  One more of them does, if the last is an open comment.
-/
theorem countP_beginsLine_take
    {earlier lexeme : List Char}
    (scanner : Scanner)
    (aligned : scanner.Aligned earlier lexeme)
    (number : Nat) :
    let pulled := scanner.tokens.take number
    let begun := pulled.countP Token.beginsLine
    let behind := scanner.skip pulled
    EndsOpen (scanner.pieces.take number) ∧ behind.AtEnd ∧
        begun + behind.lineFeeds = scanner.lineFeeds + 1 ∨
      ¬ EndsOpen (scanner.pieces.take number) ∧
        begun + behind.lineFeeds = scanner.lineFeeds := by
  induction scanner using induction_next
    generalizing earlier lexeme number with
  | ended scanner isEnd =>
      right
      cases number with
      | zero =>
          exact ⟨not_endsOpen_nil, Nat.zero_add _⟩
      | succ number =>
          have closed : ¬ scanner.piece.IsOpenComment := by
            rw [Piece.IsOpenComment, piece, isEnd]
            simp
          rcases beginsLine_next aligned with ⟨isOpen, -⟩ | ⟨-, counted⟩
          · exact absurd isOpen closed
          · rw [tokens_of_eof isEnd, pieces_of_eof isEnd,
              List.take_succ_cons, List.take_succ_cons, List.take_nil,
              List.take_nil, endsOpen_cons_iff closed]
            exact ⟨not_endsOpen_nil, counted⟩
  | inner scanner inner inductionHypothesis =>
      cases number with
      | zero =>
          exact Or.inr ⟨not_endsOpen_nil, Nat.zero_add _⟩
      | succ number =>
          obtain ⟨gap, text, reads⟩ := scanner.exists_reads
          have later := inductionHypothesis (reads.aligned aligned) number
          rw [tokens_of_ne_eof inner, pieces_of_ne_eof inner,
            List.take_succ_cons, List.take_succ_cons]
          simp only [List.countP_cons, skip] at later ⊢
          rcases beginsLine_next aligned with
              ⟨isOpen, begins, restShape, none⟩ | ⟨closed, counted⟩
          · have atEnd := atEnd_of_rest restShape
            have nothing := countP_beginsLine_of_atEnd atEnd number
            have behindEnd :=
              atEnd_skip atEnd (scanner.next.2.tokens.take number)
            left
            refine ⟨.last isOpen ?_, behindEnd, ?_⟩
            · intro later member
              rw [pieces_of_eof atEnd] at member
              rw [List.mem_singleton.mp (List.mem_of_mem_take member)]
              exact atEnd
            · rw [nothing, lineFeeds_of_atEnd behindEnd, if_pos begins,
                none]
          · rw [endsOpen_cons_iff closed]
            rw [List.countP_singleton] at counted
            rcases later with ⟨endsOpen, atEnd, total⟩ | ⟨goesOn, total⟩
            · exact Or.inl ⟨endsOpen, atEnd, by omega⟩
            · exact Or.inr ⟨goesOn, by omega⟩

end Scanner

end Iloc
