import Iloc.Proofs.Scanner.Pulling

namespace Iloc

/-!
# The byte cursor

A scanner looks at characters and cuts lexemes out by bytes.  Characters take
different numbers of bytes, so the two would drift apart for good if a single
character were read without its bytes being counted.

A scanner changes in three ways only: it reads a character, it begins a lexeme
where it stands, and it counts a line.  Each of the three leaves the offsets
where the characters are, between two characters and never inside of one, so
the offsets are there in every scanner that a text leads to.  Every reading,
with its loops, is made of these three.
-/

namespace Scanner

/-- Let the next lexeme start at the current place. -/
def beginLexeme (scanner : Scanner) : Scanner :=
  { scanner with start := scanner.position }

/--
The scanners that a text leads to, each with the characters that have been read
since its lexeme was begun.
-/
inductive Reached (source : String) : List Char → Scanner → Prop where
  | new :
      Reached source [] (ofSource source)
  | consume
      {taken : List Char}
      {character : Char}
      {scanner later : Scanner}
      (reached : Reached source taken scanner)
      (consumed : scanner.consume? = some (character, later)) :
      Reached source (taken ++ [character]) later
  | beginLexeme
      {taken : List Char}
      {scanner : Scanner}
      (reached : Reached source taken scanner) :
      Reached source [] scanner.beginLexeme
  | nextLine
      {taken : List Char}
      {scanner : Scanner}
      (reached : Reached source taken scanner) :
      Reached source taken scanner.nextLine

/--
The offsets of a scanner are where its characters are.  Both stand between two
characters of the text, the bytes behind them are those of the characters still
to be read, and the bytes between them are those of the characters taken.
-/
structure OnCharacters
    (scanner : Scanner)
    (taken : List Char) :
    Prop where
  ordered : scanner.start ≤ scanner.position
  bounded : scanner.position ≤ scanner.source.rawEndPos
  start_isValid : scanner.start.IsValid scanner.source
  position_isValid : scanner.position.IsValid scanner.source
  /-- Nothing but the characters still to be read is ahead. -/
  ahead_eq :
    scanner.source.toByteArray.extract
        scanner.position.byteIdx scanner.source.utf8ByteSize =
      scanner.rest.utf8Encode
  /-- Nothing but the characters taken is between the offsets. -/
  between_eq :
    scanner.source.toByteArray.extract
        scanner.start.byteIdx scanner.position.byteIdx =
      taken.utf8Encode
  lexeme_eq : scanner.lexeme = String.ofList taken

/-! ## Bytes and characters -/

/-- The encoding of a text in the middle is cut out by the sizes around it. -/
theorem extract_utf8Encode
    (before text behind : List Char) :
    (before ++ text ++ behind).utf8Encode.extract
        (String.utf8Len before) (String.utf8Len (before ++ text)) =
      text.utf8Encode := by
  have size
      (characters : List Char) :
      characters.utf8Encode.size = String.utf8Len characters :=
    String.utf8ByteSize_ofList characters
  rw [← size, ← size, List.utf8Encode_append,
    ByteArray.extract_append_size_left, List.utf8Encode_append,
    ByteArray.extract_append_eq_right rfl ByteArray.size_append]

/-- The size of the first part of a text is an offset between characters. -/
theorem isValid_utf8Len
    (before behind : List Char) :
    (⟨String.utf8Len before⟩ : String.Pos.Raw).IsValid
      (String.ofList (before ++ behind)) := by
  rw [String.Pos.Raw.isValid_iff_exists_append]
  exact
    ⟨String.ofList before, String.ofList behind, String.ofList_append,
      (String.rawEndPos_ofList before).symm⟩

variable {scanner : Scanner} {source : String} {taken : List Char}

/-- Offsets that count the sizes of characters stand between characters. -/
theorem Aligned.onCharacters
    {earlier : List Char}
    (aligned : scanner.Aligned earlier taken) :
    scanner.OnCharacters taken where
  ordered := by
    rw [aligned.start_eq, aligned.position_eq, String.utf8Len_append,
      String.Pos.Raw.le_iff]
    exact Nat.le_add_right _ _
  bounded := by
    rw [aligned.position_eq, aligned.source_eq, String.rawEndPos_ofList,
      String.utf8Len_append (earlier ++ taken), String.Pos.Raw.le_iff]
    exact Nat.le_add_right _ _
  start_isValid := by
    rw [aligned.start_eq, aligned.source_eq, List.append_assoc]
    exact isValid_utf8Len earlier (taken ++ scanner.rest)
  position_isValid := by
    rw [aligned.position_eq, aligned.source_eq]
    exact isValid_utf8Len (earlier ++ taken) scanner.rest
  ahead_eq := by
    have behind := extract_utf8Encode (earlier ++ taken) scanner.rest []
    rw [List.append_nil] at behind
    rw [aligned.position_eq, aligned.source_eq,
      String.utf8ByteSize_ofList, String.toByteArray_ofList]
    exact behind
  between_eq := by
    rw [aligned.start_eq, aligned.position_eq, aligned.source_eq,
      String.toByteArray_ofList]
    exact extract_utf8Encode earlier taken scanner.rest
  lexeme_eq := aligned.lexeme_eq

/-- Where a lexeme begins, all that was read before lies behind it. -/
theorem Aligned.beginLexeme
    {earlier : List Char}
    (aligned : scanner.Aligned earlier taken) :
    scanner.beginLexeme.Aligned (earlier ++ taken) [] where
  source_eq := by
    rw [List.append_nil]
    exact aligned.source_eq
  start_eq := aligned.position_eq
  position_eq := by
    rw [List.append_nil]
    exact aligned.position_eq

/-- Reading one character leaves the text as it is. -/
theorem source_of_consume?
    {later : Scanner}
    {character : Char}
    (consumed : scanner.consume? = some (character, later)) :
    later.source = scanner.source := by
  unfold consume? at consumed
  split at consumed
  · cases consumed
  · cases consumed
    rfl

namespace Reached

/-- The offsets count the sizes of all characters read, whatever is done. -/
theorem exists_aligned
    (reached : Reached source taken scanner) :
    ∃ earlier, scanner.Aligned earlier taken := by
  induction reached with
  | new =>
      exact ⟨[], .ofSource source⟩
  | consume reached consumed inductionHypothesis =>
      obtain ⟨earlier, aligned⟩ := inductionHypothesis
      exact ⟨earlier, aligned.consume? consumed⟩
  | @beginLexeme taken scanner reached inductionHypothesis =>
      -- What was taken now counts as earlier: blanks, or the last lexeme.
      obtain ⟨earlier, aligned⟩ := inductionHypothesis
      exact ⟨earlier ++ taken, aligned.beginLexeme⟩
  | nextLine reached inductionHypothesis =>
      obtain ⟨earlier, aligned⟩ := inductionHypothesis
      exact ⟨earlier, aligned.nextLine⟩

/-- The text itself is never changed. -/
theorem source_eq
    (reached : Reached source taken scanner) :
    scanner.source = source := by
  induction reached with
  | new =>
      rfl
  | consume reached consumed inductionHypothesis =>
      rw [← inductionHypothesis]
      exact source_of_consume? consumed
  | beginLexeme reached inductionHypothesis =>
      exact inductionHypothesis
  | nextLine reached inductionHypothesis =>
      exact inductionHypothesis

end Reached

/-! ## The loops of a scanner -/

/-- A loop reads a character that satisfies its condition, and goes on. -/
theorem consumeWhile_of_consume?
    {later : Scanner}
    {character : Char}
    {condition : Char → Bool}
    (consumed : scanner.consume? = some (character, later))
    (satisfied : condition character = true) :
    scanner.consumeWhile condition = later.consumeWhile condition := by
  unfold consume? at consumed
  split at consumed
  · cases consumed
  · rename_i first rest restShape
    cases consumed
    simp [consumeWhile, restShape, satisfied]

/-- A loop stops where its condition is not satisfied. -/
theorem consumeWhile_of_endsRun
    {condition : Char → Bool}
    (ended : Text.EndsRun condition scanner.rest) :
    scanner.consumeWhile condition = scanner := by
  have none : scanner.rest.takeWhile condition = [] :=
    Text.takeWhile_run (List.forall_mem_nil _) ended
  have all : scanner.rest.dropWhile condition = scanner.rest :=
    Text.dropWhile_run (List.forall_mem_nil _) ended
  rw [consumeWhile, none, all]
  rfl

namespace Reached

/-- A loop reads one character after the other. -/
theorem consumeWhile
    (reached : Reached source taken scanner)
    (condition : Char → Bool) :
    Reached source (taken ++ scanner.rest.takeWhile condition)
      (scanner.consumeWhile condition) := by
  induction ahead : scanner.rest generalizing scanner taken with
  | nil =>
      have ended : Text.EndsRun condition scanner.rest := by
        rw [ahead]
        exact Text.endsRun_nil condition
      rw [consumeWhile_of_endsRun ended, List.takeWhile_nil,
        List.append_nil]
      exact reached
  | cons first rest inductionHypothesis =>
      obtain ⟨later, consumed⟩ := consume?_of_rest ahead
      have restShape : later.rest = rest := by
        have split := rest_of_consume? consumed
        rw [ahead] at split
        exact (List.tail_eq_of_cons_eq split).symm
      cases satisfied : condition first with
      | true =>
          rw [consumeWhile_of_consume? consumed satisfied,
            List.takeWhile_cons_of_pos satisfied, List.append_cons]
          exact inductionHypothesis (reached.consume consumed) restShape
      | false =>
          have ended : Text.EndsRun condition scanner.rest := by
            rw [ahead]
            exact Text.endsRun_cons satisfied rest
          rw [consumeWhile_of_endsRun ended,
            List.takeWhile_cons_of_neg (by simp [satisfied]),
            List.append_nil]
          exact reached

/-- A lexeme begins where the blanks before it end. -/
theorem skipBlanks
    (reached : Reached source taken scanner) :
    Reached source [] scanner.skipBlanks :=
  (reached.consumeWhile Text.isBlank).beginLexeme

/-! ## The readings of a scanner -/

theorem finishArrow
    (reached : Reached source taken scanner) :
    ∃ text, Reached source text scanner.finishArrow.2 := by
  unfold Scanner.finishArrow
  split
  · rename_i later consumed
    exact ⟨_, reached.consume consumed⟩
  · exact ⟨_, reached⟩

theorem finishComment
    (reached : Reached source taken scanner) :
    ∃ text, Reached source text scanner.finishComment.2 := by
  have body := reached.consumeWhile (· != '\n')
  unfold Scanner.finishComment
  split
  · dsimp only
    split
    · rename_i character later consumed
      exact ⟨_, (body.consume consumed).nextLine⟩
    · exact ⟨_, body⟩
  · exact ⟨_, reached⟩

theorem readKind
    (reached : Reached source taken scanner) :
    ∃ text, Reached source text scanner.readKind.2 := by
  unfold Scanner.readKind
  split
  · exact ⟨_, reached⟩
  · rename_i first begun consumed
    have begins := reached.consume consumed
    split
    · exact ⟨_, begins.nextLine⟩
    split
    · exact ⟨_, begins⟩
    split
    · exact begins.finishArrow
    split
    · exact begins.finishComment
    split
    · exact ⟨_, begins.consumeWhile Char.isDigit⟩
    split
    · exact ⟨_, begins.consumeWhile Char.isAlphanum⟩
    · exact ⟨_, begins⟩

/-- What has been taken of a text is the lexeme that the offsets cut out. -/
theorem taken_unique
    {other : List Char}
    (reached : Reached source taken scanner)
    (cut : scanner.lexeme = String.ofList other) :
    taken = other := by
  obtain ⟨earlier, aligned⟩ := reached.exists_aligned
  rw [aligned.lexeme_eq] at cut
  exact String.ofList_injective cut

/-- Behind a reading exactly the characters of its lexeme have been taken. -/
theorem next
    {gap text : List Char}
    (reached : Reached source taken scanner)
    (reads : scanner.Reads gap text) :
    Reached source text scanner.next.2 := by
  obtain ⟨earlier, aligned⟩ := reached.exists_aligned
  -- Which branch was taken does not matter: the lexeme tells what was read.
  obtain ⟨read, behind⟩ := reached.skipBlanks.readKind
  have same : read = text :=
    taken_unique behind (reads.aligned aligned).lexeme_eq
  rw [same] at behind
  exact behind

/-- Any number of readings lead from a scanner to others of its text. -/
theorem afterReadings
    (reached : Reached source taken scanner)
    (number : Nat) :
    ∃ text, Reached source text (scanner.afterReadings number) := by
  induction number generalizing scanner taken with
  | zero =>
      exact ⟨taken, reached⟩
  | succ number inductionHypothesis =>
      obtain ⟨gap, text, reads⟩ := scanner.exists_reads
      exact inductionHypothesis (reached.next reads)

/-- A text leads to all scanners that readings of it go through. -/
theorem ofReadings
    (source : String)
    (number : Nat) :
    ∃ text,
      Reached source text ((ofSource source).afterReadings number) :=
  new.afterReadings number

end Reached

end Scanner

/--
The bytes of a scanner never drift from its characters.  In every scanner that
a text leads to, both offsets stand between two characters, the bytes ahead are
the characters still to be read, and the lexeme that the offsets cut out is what
has been read since it was begun.

Such are the scanners that all readings of the text go through: the lexeme
begins behind the blanks, it holds one character when that character decides how
to go on, it grows by what a loop reads, and at the end it is the lexeme of the
token.
-/
theorem cursor_never_drifts
    (source : String) :
    (∀ taken scanner,
        Scanner.Reached source taken scanner →
          scanner.source = source ∧ scanner.OnCharacters taken) ∧
      ∀ number,
        let scanner := (Scanner.ofSource source).afterReadings number
        let ready := scanner.skipBlanks
        Scanner.Reached source [] ready ∧
          (∀ first begun,
            ready.consume? = some (first, begun) →
              Scanner.Reached source [first] begun ∧
                ∀ condition,
                  Scanner.Reached source
                    (first :: begun.rest.takeWhile condition)
                    (begun.consumeWhile condition)) ∧
          ∃ gap text,
            scanner.Reads gap text ∧
              Scanner.Reached source text scanner.next.2 := by
  refine ⟨?_, ?_⟩
  · intro taken scanner reached
    obtain ⟨earlier, aligned⟩ := reached.exists_aligned
    exact ⟨reached.source_eq, aligned.onCharacters⟩
  · intro number scanner ready
    obtain ⟨taken, reached⟩ := Scanner.Reached.ofReadings source number
    have isReady : Scanner.Reached source [] ready := reached.skipBlanks
    refine ⟨isReady, ?_, ?_⟩
    · intro first begun consumed
      have begins : Scanner.Reached source [first] begun :=
        isReady.consume consumed
      exact ⟨begins, begins.consumeWhile⟩
    · obtain ⟨gap, text, reads⟩ := scanner.exists_reads
      exact ⟨gap, text, reads, reached.next reads⟩

/-- Blanks and comments of several bytes do not move a word out of place. -/
example :
    let behind :=
      (Scanner.ofSource "\u3000// é\nß\u2003r12").afterReadings 3
    behind.start = ⟨14⟩ ∧ behind.position = ⟨17⟩ ∧
      behind.lexeme = "r12" := by
  decide +kernel

end Iloc
