import Iloc.Proofs.Scanner.Numbering

namespace Iloc

/-!
# The normal form of a text

Every text has a normal form: what comments say is left out, and the words of
each line stand one space apart.  Text and normal form have the same tokens on
the same lines.

White space can be exchanged because it ends every lexeme except a comment, and
belongs to no lexeme but that.  In a line whose comment says nothing, tokens can
therefore be read word by word.
-/

/-- Blanks in front of a text belong to the gap before its first piece. -/
theorem Tiling.prepend_blanks
    {blanks characters : List Char}
    {pieces : List Piece}
    (allBlank : ∀ character ∈ blanks, Text.isBlank character = true)
    (tiling : Tiling characters pieces)
    (classified :
      ∀ piece ∈ pieces, piece.kind = .ofLexeme piece.text) :
    ∃ wider,
      Tiling (blanks ++ characters) wider ∧
        (∀ piece ∈ wider, piece.kind = .ofLexeme piece.text) ∧
        wider.map (·.kind) = pieces.map (·.kind) := by
  have widened
      {gap : List Char}
      (blank : ∀ character ∈ gap, Text.isBlank character = true) :
      ∀ character ∈ blanks ++ gap, Text.isBlank character = true := by
    intro character member
    rcases List.mem_append.mp member with inBlanks | inGap
    · exact allBlank character inBlanks
    · exact blank character inGap
  cases tiling with
  | ended blank =>
      obtain ⟨isEnd, -⟩ := List.forall_mem_cons.mp classified
      refine ⟨[⟨blanks ++ characters, .eof, []⟩],
        .ended (widened blank), ?_, rfl⟩
      exact List.forall_mem_singleton.mpr isEnd
  | @piece gap text rest kind pieces blank inner shape tail =>
      obtain ⟨isKind, tailClassified⟩ :=
        List.forall_mem_cons.mp classified
      refine ⟨⟨blanks ++ gap, kind, text⟩ :: pieces, ?_, ?_, rfl⟩
      · rw [← List.append_assoc]
        exact .piece (widened blank) inner shape tail
      · exact List.forall_mem_cons.mpr ⟨isKind, tailClassified⟩

namespace Text

/-- A blank ends every lexeme before it. -/
theorem Breaks.blank
    {blank : Char}
    (isBlank : isBlank blank = true)
    (text next : List Char) :
    Breaks text (blank :: next) := by
  intro character isHead
  obtain rfl := Option.some.inj isHead
  refine
    ⟨isAlphanum_of_isWhiteSpace (isWhiteSpace_of_isBlank isBlank), ?_, ?_⟩
  · rintro rfl
    cases isBlank
  · rintro rfl
    cases isBlank

/-- A text is scanned up to a blank as it is alone, if no line ends in it. -/
theorem kinds_append_blank
    {characters : List Char}
    {blank : Char}
    (closed :
      ∀ piece ∈ lexemes characters,
        piece.kind ≠ .eof → piece.kind.isLineEnd = false)
    (isBlank : isBlank blank = true)
    (rest : List Char) :
    kinds (characters ++ blank :: rest) =
      innerKinds characters ++ kinds rest := by
  apply kinds_append closed (.blank isBlank characters rest)
  intro gap allBlank
  have blanks :
      ∀ character ∈ gap ++ [blank],
        Text.isBlank character = true := by
    intro character member
    rcases List.mem_append.mp member with inGap | isLast
    · exact allBlank character inGap
    · rw [List.mem_singleton.mp isLast]
      exact isBlank
  have wider :=
    Tiling.prepend_blanks blanks (tiling_lexemes rest)
      (classified_lexemes rest)
  rw [List.append_assoc] at wider
  exact wider

/-! ## Words -/

/-- The longest stretches of a text without white space. -/
def words (characters : List Char) : List (List Char) :=
  (characters.splitOnP isWhiteSpace).filter fun word => !word.isEmpty

/-- The words of a text, one space apart. -/
def spaced (characters : List Char) : List Char :=
  [' '].intercalate (words characters)

/-- Words lie on either side of white space. -/
theorem words_append
    {separator : Char}
    (white : isWhiteSpace separator = true)
    (before after : List Char) :
    words (before ++ separator :: after) = words before ++ words after := by
  rw [words, List.splitOnP_append_cons before after white,
    List.filter_append]
  rfl

/-- A text without white space is a word, unless it is empty. -/
theorem words_of_field
    {field : List Char}
    (dense : ∀ character ∈ field, isWhiteSpace character = false) :
    words field = if field = [] then [] else [field] := by
  rw [words, List.splitOnP_eq_singleton dense]
  cases field <;> rfl

/-- White space at the end of a text is not among its words. -/
theorem words_concat
    {separator : Char}
    (white : isWhiteSpace separator = true)
    (characters : List Char) :
    words (characters ++ [separator]) = words characters := by
  rw [words_append white]
  exact List.append_nil _

/-- Line feeds are white space, so there are none between words. -/
theorem lineFeed_notMem_spaced
    (characters : List Char) :
    '\n' ∉ spaced characters := by
  induction characters using @induction_fields isWhiteSpace with
  | lastField field dense =>
      have notMem : '\n' ∉ field := by
        intro member
        cases dense _ member
      rw [spaced, words_of_field dense]
      split
      · exact List.not_mem_nil
      · rw [List.intercalate_singleton]
        exact notMem
  | append field separator rest dense white inductionHypothesis =>
      have notMem : '\n' ∉ field := by
        intro member
        cases dense _ member
      rw [spaced] at inductionHypothesis ⊢
      rw [words_append white, words_of_field dense]
      split
      · exact inductionHypothesis
      · rw [List.singleton_append]
        cases restWords : words rest with
        | nil =>
            rw [List.intercalate_singleton]
            exact notMem
        | cons word others =>
            rw [restWords] at inductionHypothesis
            rw [List.intercalate_cons_cons]
            simp [notMem, inductionHypothesis]

/-- Two slashes stand nowhere in a text but at its end. -/
def SlashesLast (characters : List Char) : Prop :=
  ∀ before after, characters = before ++ '/' :: '/' :: after → after = []

/-- Where more follows, no two slashes stand. -/
theorem SlashesLast.uncommented_eq
    {before rest : List Char}
    (slashes : SlashesLast (before ++ rest))
    (more : rest ≠ []) :
    uncommented before = before := by
  rcases uncommented_cases before with whole | ⟨comment, split⟩
  · exact whole
  · have empty : comment ++ rest = [] := by
      apply slashes (uncommented before)
      rw [congrArg (· ++ rest) split]
      simp
    exact absurd (List.append_eq_nil_iff.mp empty).2 more

theorem SlashesLast.suffix
    {before rest : List Char}
    (slashes : SlashesLast (before ++ rest)) :
    SlashesLast rest := by
  rintro between after rfl
  exact slashes (before ++ between) after (List.append_assoc _ _ _).symm

/-- The tokens of a line are those of its words. -/
theorem kinds_spaced
    {line : List Char}
    (inline : '\n' ∉ line)
    (slashes : SlashesLast line) :
    kinds (spaced line) = kinds line := by
  induction line using @induction_fields isWhiteSpace with
  | lastField field dense =>
      rw [spaced, words_of_field dense]
      split
      · rename_i empty
        rw [empty]
        rfl
      · rw [List.intercalate_singleton]
  | append field separator rest dense white inductionHypothesis =>
      have notLineFeed : separator ≠ '\n' := by
        rintro rfl
        simp at inline
      have blank : isBlank separator = true := by
        simp [isBlank, white, notLineFeed]
      have fieldInline : '\n' ∉ field := by
        intro member
        cases dense _ member
      have restInline : '\n' ∉ rest := by
        intro member
        apply inline
        simp [member]
      have restSlashes : SlashesLast rest := by
        have shape : field ++ separator :: rest = field ++ [separator] ++ rest := by
          simp
        rw [shape] at slashes
        exact slashes.suffix
      have closed := inner_of_uncommented fieldInline
      rw [slashes.uncommented_eq (List.cons_ne_nil _ _)] at closed
      have restKinds := inductionHypothesis restInline restSlashes
      rw [spaced] at restKinds ⊢
      rw [words_append white, words_of_field dense,
        kinds_append_blank closed blank, ← restKinds]
      split
      · rename_i empty
        rw [empty, List.nil_append, innerKinds, kinds_nil]
        rfl
      · rw [List.singleton_append]
        cases words rest with
        | nil =>
            rw [List.intercalate_singleton, List.intercalate_nil,
              kinds_nil, kinds_eq]
        | cons word others =>
            rw [List.intercalate_cons_cons, List.append_assoc]
            exact kinds_append_blank closed (by decide) _

/-! ## Comments -/

/-- What stands before a comment does not depend on what the comment says. -/
theorem uncommented_append
    (before comment : List Char) :
    uncommented (before ++ '/' :: '/' :: comment) =
      uncommented (before ++ ['/', '/']) := by
  induction before with
  | nil =>
      rfl
  | cons first rest inductionHypothesis =>
      have sameHead :
          (rest ++ '/' :: '/' :: comment).head? =
            (rest ++ ['/', '/']).head? := by
        cases rest <;> rfl
      rw [List.cons_append, List.cons_append, uncommented, uncommented,
        sameHead, inductionHypothesis]

/-- A line without what its comment says.  The slashes stay. -/
def cutComment (line : List Char) : List Char :=
  if uncommented line = line then
    line
  else
    uncommented line ++ ['/', '/']

/-- It does not matter what a comment says. -/
theorem cutComment_append
    (before comment : List Char) :
    cutComment (before ++ '/' :: '/' :: comment) =
      uncommented (before ++ ['/', '/']) ++ ['/', '/'] := by
  rw [cutComment, if_neg (uncommented_ne_append _ before comment),
    uncommented_append]

/-- Without what its comment says a line has the same statement. -/
theorem uncommented_cutComment
    (line : List Char) :
    uncommented (cutComment line) = uncommented line := by
  rw [cutComment]
  rcases uncommented_cases line with whole | ⟨comment, split⟩
  · rw [if_pos whole]
  · rw [if_neg (uncommented_ne_of_split split),
      ← uncommented_append _ comment, ← split]

/-- Without what its comment says a line has the same comment. -/
theorem uncommented_eq_cutComment_iff
    (line : List Char) :
    uncommented (cutComment line) = cutComment line ↔
      uncommented line = line := by
  rw [uncommented_cutComment, cutComment]
  rcases uncommented_cases line with whole | ⟨comment, split⟩
  · rw [if_pos whole]
  · have commented := uncommented_ne_of_split split
    rw [if_neg commented]
    exact iff_of_false (by simp) commented

theorem slashesLast_cutComment
    (line : List Char) :
    SlashesLast (cutComment line) := by
  intro before after shape
  rcases uncommented_cases line with whole | ⟨comment, split⟩
  · rw [cutComment, if_pos whole, ← whole] at shape
    exact absurd shape (uncommented_ne_append _ _ _)
  · have bounded := length_uncommented_le before after
    rw [← shape, uncommented_cutComment] at bounded
    have sameLength := congrArg List.length shape
    rw [cutComment, if_neg (uncommented_ne_of_split split)] at sameLength
    simp only [List.length_append, List.length_cons,
      List.length_nil] at sameLength
    apply List.eq_nil_of_length_eq_zero
    omega

theorem lineFeed_notMem_cutComment
    {line : List Char}
    (inline : '\n' ∉ line) :
    '\n' ∉ cutComment line := by
  rw [cutComment]
  split
  · exact inline
  · intro member
    rcases List.mem_append.mp member with before | isSlash
    · exact inline (mem_of_mem_uncommented before)
    · simp at isSlash

/-- A line has the same tokens without what its comment says. -/
theorem kinds_cutComment
    {line : List Char}
    (inline : '\n' ∉ line) :
    kinds (cutComment line) = kinds line := by
  rw [kinds_eq, kinds_eq line,
    innerKinds_line (lineFeed_notMem_cutComment inline),
    innerKinds_line inline, uncommented_cutComment]
  simp only [← uncommented_cutComment line, uncommented_eq_cutComment_iff]

/-! ## Lines -/

/-- The normal form of a line. -/
def normalLine (line : List Char) : List Char :=
  spaced (cutComment line)

/-- The normal form of a text, line by line. -/
def normalForm (characters : List Char) : List Char :=
  ['\n'].intercalate ((characters.splitOn '\n').map normalLine)

theorem lineFeed_notMem_normalLine
    (line : List Char) :
    '\n' ∉ normalLine line :=
  lineFeed_notMem_spaced _

/-- A line and its normal form have tokens of the same kinds. -/
theorem kinds_normalLine
    {line : List Char}
    (inline : '\n' ∉ line) :
    kinds (normalLine line) = kinds line :=
  (kinds_spaced (lineFeed_notMem_cutComment inline)
    (slashesLast_cutComment line)).trans (kinds_cutComment inline)

theorem normalForm_of_inline
    {line : List Char}
    (inline : '\n' ∉ line) :
    normalForm line = normalLine line := by
  rw [normalForm, List.splitOn_eq_singleton inline]
  exact List.intercalate_singleton

theorem normalForm_append
    {line : List Char}
    (inline : '\n' ∉ line)
    (rest : List Char) :
    normalForm (line ++ '\n' :: rest) =
      normalLine line ++ '\n' :: normalForm rest := by
  have nonempty : (rest.splitOn '\n').map normalLine ≠ [] := by
    simp
  rw [normalForm, List.splitOn_append_cons_self_of_not_mem inline,
    List.map_cons, List.intercalate_cons_of_ne_nil nonempty,
    List.append_assoc]
  rfl

/-- A text and its normal form have tokens of the same kinds. -/
theorem kinds_normalForm
    (characters : List Char) :
    kinds (normalForm characters) = kinds characters := by
  induction characters using induction_lines with
  | lastLine line inline =>
      rw [normalForm_of_inline inline, kinds_normalLine inline]
  | append line rest inline inductionHypothesis =>
      have normalInline := lineFeed_notMem_normalLine line
      have sameInner : innerKinds (normalLine line) = innerKinds line := by
        rw [innerKinds, kinds_normalLine inline, innerKinds]
      rw [normalForm_append inline, kinds_line_joint normalInline,
        kinds_line_joint inline, joint_eq normalInline, joint_eq inline,
        sameInner, inductionHypothesis]

/-- A text and its normal form have the same number of lines. -/
theorem count_lineFeed_normalForm
    (characters : List Char) :
    (normalForm characters).count '\n' = characters.count '\n' := by
  induction characters using induction_lines with
  | lastLine line inline =>
      rw [normalForm_of_inline inline,
        List.count_eq_zero_of_not_mem inline,
        List.count_eq_zero_of_not_mem (lineFeed_notMem_normalLine line)]
  | append line rest inline inductionHypothesis =>
      rw [normalForm_append inline, List.count_append, List.count_append,
        List.count_cons_self, List.count_cons_self, inductionHypothesis,
        List.count_eq_zero_of_not_mem inline,
        List.count_eq_zero_of_not_mem (lineFeed_notMem_normalLine line)]

/-! ## Texts with the same normal form -/

/-- White space at the end of a line is lost. -/
theorem normalLine_concat
    {separator : Char}
    (white : isWhiteSpace separator = true)
    (line : List Char) :
    normalLine (line ++ [separator]) = normalLine line := by
  rcases uncommented_cases line with whole | ⟨comment, split⟩
  · have stillWhole :
        uncommented (line ++ [separator]) = line ++ [separator] := by
      rcases uncommented_cases (line ++ [separator]) with
          unchanged | ⟨comment, split⟩
      · exact unchanged
      · exfalso
        rcases List.eq_nil_or_concat comment with rfl | ⟨body, last, rfl⟩
        · have endsInSlash := congrArg List.getLast? split
          simp only [List.getLast?_append, List.getLast?_cons,
            List.getLast?_nil, Option.getD_none, Option.getD_some,
            Option.some_or, Option.some.injEq] at endsInSlash
          rw [endsInSlash] at white
          cases white
        · rw [List.concat_eq_append, ← List.cons_append,
            ← List.cons_append, ← List.append_assoc] at split
          obtain ⟨lineShape, -⟩ := List.append_inj' split rfl
          exact uncommented_ne_append line _ _ (whole.trans lineShape)
    rw [normalLine, normalLine, cutComment, cutComment,
      if_pos stillWhole, if_pos whole, spaced, spaced, words_concat white]
  · have shape :
        line ++ [separator] =
          uncommented line ++ '/' :: '/' :: (comment ++ [separator]) :=
      (congrArg (· ++ [separator]) split).trans (by simp)
    rw [normalLine, normalLine, shape, cutComment_append,
      ← cutComment_append _ comment, ← split]

/-- A character with a carriage return in front if it is a line feed. -/
def carriageReturn (character : Char) : List Char :=
  if character = '\n' then ['\r', '\n'] else [character]

theorem flatMap_carriageReturn_of_inline
    {line : List Char}
    (inline : '\n' ∉ line) :
    line.flatMap carriageReturn = line := by
  induction line with
  | nil =>
      rfl
  | cons first rest inductionHypothesis =>
      have others := List.not_mem_of_not_mem_cons inline
      have notLineFeed : first ≠ '\n' := by
        rintro rfl
        simp at inline
      rw [List.flatMap_cons, inductionHypothesis others, carriageReturn,
        if_neg notLineFeed]
      rfl

/-- Carriage returns in front of line feeds are lost. -/
theorem normalForm_carriageReturn
    (characters : List Char) :
    normalForm (characters.flatMap carriageReturn) =
      normalForm characters := by
  induction characters using induction_lines with
  | lastLine line inline =>
      rw [flatMap_carriageReturn_of_inline inline]
  | append line rest inline inductionHypothesis =>
      have stillInline : '\n' ∉ line ++ ['\r'] := by
        simp [inline]
      have shape :
          (line ++ '\n' :: rest).flatMap carriageReturn =
            line ++ ['\r'] ++ '\n' :: rest.flatMap carriageReturn := by
        rw [List.flatMap_append, List.flatMap_cons,
          flatMap_carriageReturn_of_inline inline]
        simp [carriageReturn]
      rw [shape, normalForm_append stillInline, normalForm_append inline,
        normalLine_concat (by decide), inductionHypothesis]

/-- What a comment says is lost. -/
theorem normalForm_comment
    {comment other after : List Char}
    (commentInline : '\n' ∉ comment)
    (otherInline : '\n' ∉ other)
    (ended : EndsRun (· != '\n') after)
    (before : List Char) :
    normalForm (before ++ '/' :: '/' :: (comment ++ after)) =
      normalForm (before ++ '/' :: '/' :: (other ++ after)) := by
  induction before using induction_lines with
  | lastLine line inline =>
      have sameLine :
          normalLine (line ++ '/' :: '/' :: comment) =
            normalLine (line ++ '/' :: '/' :: other) := by
        rw [normalLine, normalLine, cutComment_append, cutComment_append]
      have lineInline
          {said : List Char}
          (saidInline : '\n' ∉ said) :
          '\n' ∉ line ++ '/' :: '/' :: said := by
        simp [inline, saidInline]
      cases after with
      | nil =>
          rw [List.append_nil, List.append_nil,
            normalForm_of_inline (lineInline commentInline),
            normalForm_of_inline (lineInline otherInline), sameLine]
      | cons first rest =>
          have isLineFeed : first = '\n' := by
            simpa using ended first rfl
          have joined (said : List Char) :
              line ++ '/' :: '/' :: (said ++ first :: rest) =
                line ++ '/' :: '/' :: said ++ '\n' :: rest := by
            simp [isLineFeed]
          rw [joined, joined,
            normalForm_append (lineInline commentInline),
            normalForm_append (lineInline otherInline), sameLine]
  | append line rest inline inductionHypothesis =>
      rw [List.append_assoc, List.append_assoc, List.cons_append,
        List.cons_append, normalForm_append inline,
        normalForm_append inline, inductionHypothesis]

end Text

/-- A text whose comments say nothing and whose words are one space apart. -/
def normalize (source : String) : String :=
  String.ofList (Text.normalForm source.toList)

/-- A text and its normal form have the same tokens on the same lines. -/
theorem scan_normalize
    (source : String) :
    scan (normalize source) = scan source := by
  have shape :
      (normalize source).toList = Text.normalForm source.toList :=
    String.toList_ofList
  apply scan_eq_of_kinds
  · rw [shape, Text.kinds_normalForm]
  · rw [shape, Text.count_lineFeed_normalForm]

/-- Texts with the same normal form have the same tokens. -/
theorem scan_eq_of_normalForm
    {source other : String}
    (sameForm :
      Text.normalForm source.toList = Text.normalForm other.toList) :
    scan source = scan other := by
  rw [← scan_normalize source, ← scan_normalize other, normalize,
    normalize, sameForm]

end Iloc
