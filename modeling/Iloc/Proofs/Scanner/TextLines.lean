import Iloc.Proofs.Scanner.Joining

namespace Iloc

/-!
# Lines of text

A text can be scanned line by line.  What a line comes to is decided by what
stands before the first two slashes in it; the rest, with the line feed behind
it, is the comment that ends the line.

The tokens that end a line stand exactly where the line feeds of the text are.
Only a comment in the last line adds one.
-/

namespace Text

/-- The pieces of a text. -/
def lexemes (characters : List Char) : List Piece :=
  (Scanner.ofSource (String.ofList characters)).pieces

theorem tiling_lexemes
    (characters : List Char) :
    Tiling characters (lexemes characters) := by
  have tiling :=
    Scanner.tiling_pieces _
      (Scanner.Aligned.ofSource (String.ofList characters))
  rw [Scanner.ofSource, String.toList_ofList] at tiling
  rw [lexemes, Scanner.ofSource, String.toList_ofList]
  exact tiling

theorem classified_lexemes
    (characters : List Char) :
    ∀ piece ∈ lexemes characters, piece.kind = .ofLexeme piece.text :=
  Scanner.classified_pieces _ (Scanner.Aligned.ofSource _)

/-- There are no other pieces of a text whose kinds are those of the lexemes. -/
theorem lexemes_eq
    {characters : List Char}
    {pieces : List Piece}
    (tiling : Tiling characters pieces)
    (classified :
      ∀ piece ∈ pieces, piece.kind = .ofLexeme piece.text) :
    lexemes characters = pieces :=
  (tiling_lexemes characters).unique tiling
    (classified_lexemes characters) classified

/-- The kinds of the tokens of a text, the end token included. -/
def kinds (characters : List Char) : List TokenKind :=
  (lexemes characters).map (·.kind)

/-- The kinds of the tokens of a text before its end. -/
def innerKinds (characters : List Char) : List TokenKind :=
  (kinds characters).dropLast

theorem kinds_toList
    (source : String) :
    kinds source.toList = (scan source).map (·.kind) := by
  rw [kinds, lexemes, String.ofList_toList, scan,
    Scanner.tokens_eq_numbered _ (Scanner.Aligned.ofSource source),
    map_kind_numbered]

/-- What stands in a line before its first two slashes. -/
def uncommented : List Char → List Char
  | [] => []
  | first :: rest =>
      if first = '/' ∧ rest.head? = some '/' then
        []
      else
        first :: uncommented rest

/-- A line is what stands before its comment, and the comment if it has one. -/
theorem uncommented_cases
    (line : List Char) :
    uncommented line = line ∨
      ∃ comment, line = uncommented line ++ '/' :: '/' :: comment := by
  induction line with
  | nil =>
      exact Or.inl rfl
  | cons first rest inductionHypothesis =>
      rw [uncommented]
      by_cases slashes : first = '/' ∧ rest.head? = some '/'
      · rw [if_pos slashes]
        obtain ⟨rfl, second⟩ := slashes
        cases rest with
        | nil =>
            cases second
        | cons next comment =>
            obtain rfl := Option.some.inj second
            exact Or.inr ⟨comment, rfl⟩
      · rw [if_neg slashes]
        rcases inductionHypothesis with whole | ⟨comment, shape⟩
        · rw [whole]
          exact Or.inl rfl
        · refine Or.inr ⟨comment, ?_⟩
          rw [List.cons_append, ← shape]

/-- No two slashes stand before the first two slashes. -/
theorem length_uncommented_le
    (before after : List Char) :
    (uncommented (before ++ '/' :: '/' :: after)).length ≤
      before.length := by
  induction before with
  | nil =>
      rw [List.nil_append, uncommented, if_pos ⟨rfl, rfl⟩]
  | cons first rest inductionHypothesis =>
      rw [List.cons_append, uncommented]
      split
      · exact Nat.zero_le _
      · exact Nat.succ_le_succ inductionHypothesis

theorem uncommented_ne_append
    (line before after : List Char) :
    uncommented line ≠ before ++ '/' :: '/' :: after := by
  intro slashes
  have shape : ∃ more, line = before ++ '/' :: '/' :: more := by
    rcases uncommented_cases line with whole | ⟨comment, split⟩
    · exact ⟨after, whole.symm.trans slashes⟩
    · refine ⟨after ++ '/' :: '/' :: comment, ?_⟩
      rw [split, slashes]
      simp
  obtain ⟨more, rfl⟩ := shape
  have bounded := length_uncommented_le before more
  rw [slashes] at bounded
  simp at bounded

theorem getLast?_uncommented_ne
    {line comment : List Char}
    (split : line = uncommented line ++ '/' :: '/' :: comment) :
    (uncommented line).getLast? ≠ some '/' := by
  intro endsInSlash
  obtain ⟨before, shape⟩ := List.getLast?_eq_some_iff.mp endsInSlash
  have earlier : line = before ++ '/' :: '/' :: '/' :: comment := by
    rw [split, shape]
    simp
  have bounded := length_uncommented_le before ('/' :: comment)
  rw [← earlier, shape] at bounded
  simp at bounded

theorem uncommented_ne_of_split
    {line comment : List Char}
    (split : line = uncommented line ++ '/' :: '/' :: comment) :
    uncommented line ≠ line := by
  intro whole
  rw [whole] at split
  simp at split

theorem mem_of_mem_uncommented
    {line : List Char}
    {character : Char}
    (member : character ∈ uncommented line) :
    character ∈ line := by
  rcases uncommented_cases line with whole | ⟨comment, split⟩
  · rw [← whole]
    exact member
  · rw [split]
    exact List.mem_append_left _ member

/-- Before the comment of a line no token ends the line. -/
theorem inner_of_uncommented
    {line : List Char}
    (inline : '\n' ∉ line) :
    ∀ piece ∈ lexemes (uncommented line),
      piece.kind ≠ .eof → piece.kind.isLineEnd = false := by
  intro piece member notEnd
  obtain ⟨before, following, split, shape⟩ :=
    (tiling_lexemes (uncommented line)).shape_of_mem piece member
  cases kind : piece.kind with
  | eof =>
      exact absurd kind notEnd
  | newLine =>
      rw [kind] at shape
      have isLineFeed : piece.text = ['\n'] := shape
      refine absurd (mem_of_mem_uncommented ?_) inline
      rw [split, isLineFeed]
      simp
  | comment =>
      rw [kind] at shape
      have slashes : ∃ body, piece.text = '/' :: '/' :: body := by
        generalize piece.text = text at shape
        cases shape with
        | ended following inline =>
            exact ⟨_, rfl⟩
        | unended inline =>
            exact ⟨_, rfl⟩
      obtain ⟨body, textShape⟩ := slashes
      rw [textShape] at split
      exact absurd split (uncommented_ne_append _ _ _)
  | _ => rfl

/--
A text without line ends has the same tokens when another one follows that does
not continue it.
-/
theorem kinds_append
    {characters next : List Char}
    {later : List TokenKind}
    (closed :
      ∀ piece ∈ lexemes characters,
        piece.kind ≠ .eof → piece.kind.isLineEnd = false)
    (breaks : Breaks characters next)
    (rest :
      ∀ gap, (∀ character ∈ gap, isBlank character = true) →
        ∃ pieces,
          Tiling (gap ++ next) pieces ∧
            (∀ piece ∈ pieces, piece.kind = .ofLexeme piece.text) ∧
            pieces.map (·.kind) = later) :
    kinds (characters ++ next) = innerKinds characters ++ later := by
  obtain ⟨body, gap, shape, inner, blank⟩ :=
    (tiling_lexemes characters).exists_body
  obtain ⟨pieces, restTiling, restClassified, rfl⟩ := rest gap blank
  have tiling := tiling_lexemes characters
  have classified := classified_lexemes characters
  rw [shape] at tiling classified closed
  have bodyClosed :
      ∀ piece ∈ body,
        piece.kind.isLineEnd = false ∨ '\n' ∈ piece.text := by
    intro piece member
    left
    exact closed piece (List.mem_append_left _ member) (inner piece member)
  have joined := tiling.append bodyClosed breaks restTiling
  have joinedClassified :
      ∀ piece ∈ body ++ pieces, piece.kind = .ofLexeme piece.text := by
    intro piece member
    rcases List.mem_append.mp member with inBody | inRest
    · exact classified piece (List.mem_append_left _ inBody)
    · exact restClassified piece inRest
  rw [kinds, lexemes_eq joined joinedClassified, innerKinds, kinds,
    shape]
  simp

/-- The pieces of a text that begins with a line feed or with a comment. -/
theorem exists_terminated
    {kind : TokenKind}
    {text rest : List Char}
    (inner : kind ≠ .eof)
    (shape : kind.Shape text rest)
    (isKind : kind = .ofLexeme text) :
    ∀ gap, (∀ character ∈ gap, isBlank character = true) →
      ∃ pieces,
        Tiling (gap ++ (text ++ rest)) pieces ∧
          (∀ piece ∈ pieces, piece.kind = .ofLexeme piece.text) ∧
          pieces.map (·.kind) = kind :: kinds rest := by
  intro gap blank
  refine ⟨⟨gap, kind, text⟩ :: lexemes rest,
    .piece blank inner shape (tiling_lexemes rest), ?_, rfl⟩
  exact List.forall_mem_cons.mpr ⟨isKind, classified_lexemes rest⟩

/-- The token that ends a line in front of another one. -/
def lineEnd (line : List Char) : TokenKind :=
  if uncommented line = line then .newLine else .comment

theorem isLineEnd_lineEnd
    (line : List Char) :
    (lineEnd line).isLineEnd = true := by
  rw [lineEnd]
  split <;> rfl

/--
A line with more lines behind it: its tokens, one token that ends the line, and
the tokens of the lines behind.
-/
theorem kinds_line_append
    {line : List Char}
    (inline : '\n' ∉ line)
    (rest : List Char) :
    kinds (line ++ '\n' :: rest) =
      innerKinds (uncommented line) ++ lineEnd line :: kinds rest := by
  have closed := inner_of_uncommented inline
  rw [lineEnd]
  rcases uncommented_cases line with whole | ⟨comment, split⟩
  · have joined :=
      kinds_append closed (.lineFeed _ rest)
        (@exists_terminated .newLine ['\n'] rest (by decide) rfl rfl)
    rw [whole] at joined
    rw [if_pos whole, whole]
    exact joined
  · have inlineComment : '\n' ∉ comment := by
      intro member
      apply inline
      rw [split]
      simp [member]
    have shape :
        line ++ '\n' :: rest =
          uncommented line ++
            ('/' :: '/' :: (comment ++ ['\n']) ++ rest) :=
      (congrArg (· ++ '\n' :: rest) split).trans (by simp)
    have joined :=
      kinds_append closed (.slash _ (getLast?_uncommented_ne split))
        (@exists_terminated .comment _ rest (by decide)
          (.ended rest inlineComment) (by simp [TokenKind.ofLexeme]))
    rw [if_neg (uncommented_ne_of_split split), shape]
    exact joined

/-- The tokens of a text are those before its end, and the end. -/
theorem kinds_eq
    (characters : List Char) :
    kinds characters = innerKinds characters ++ [.eof] := by
  obtain ⟨body, gap, shape, -⟩ := (tiling_lexemes characters).exists_body
  rw [innerKinds, kinds, shape]
  simp

theorem kinds_nil : kinds [] = [.eof] := by
  have ended : Tiling [] [⟨[], .eof, []⟩] :=
    .ended (List.forall_mem_nil _)
  rw [kinds, lexemes_eq ended]
  · rfl
  · intro piece member
    rw [List.mem_singleton.mp member]
    rfl

/-- The tokens of a line without line feed: those before its comment, and it. -/
theorem innerKinds_line
    {line : List Char}
    (inline : '\n' ∉ line) :
    innerKinds line =
      innerKinds (uncommented line) ++
        if uncommented line = line then [] else [.comment] := by
  rcases uncommented_cases line with whole | ⟨comment, split⟩
  · rw [if_pos whole, whole, List.append_nil]
  · have inlineComment : '\n' ∉ comment := by
      intro member
      apply inline
      rw [split]
      simp [member]
    have shape :
        line = uncommented line ++ ('/' :: '/' :: comment ++ []) := by
      rw [List.append_nil]
      exact split
    have joined :=
      kinds_append (inner_of_uncommented inline)
        (.slash _ (getLast?_uncommented_ne split))
        (@exists_terminated .comment _ [] (by decide)
          (.unended inlineComment) (by simp [TokenKind.ofLexeme]))
    rw [kinds_nil] at joined
    rw [if_neg (uncommented_ne_of_split split), innerKinds,
      (congrArg kinds shape).trans joined]
    simp

/-- The last line of a text: its tokens, its comment, and the end. -/
theorem kinds_lastLine
    {line : List Char}
    (inline : '\n' ∉ line) :
    kinds line = innerKinds (uncommented line) ++ [.eof] ∨
      kinds line =
        innerKinds (uncommented line) ++ [.comment, .eof] := by
  rw [kinds_eq, innerKinds_line inline]
  split
  · left
    rw [List.append_nil]
  · right
    simp

/--
Induction over the stretches of a text between characters that separate them.
-/
theorem induction_fields
    {separates : Char → Bool}
    {motive : List Char → Prop}
    (lastField :
      ∀ field,
        (∀ character ∈ field, separates character = false) →
        motive field)
    (append :
      ∀ field separator rest,
        (∀ character ∈ field, separates character = false) →
        separates separator = true →
        motive rest →
        motive (field ++ separator :: rest))
    (characters : List Char) :
    motive characters := by
  induction isLength : characters.length using Nat.strongRecOn
    generalizing characters with
  | ind length inductionHypothesis =>
      have split :=
        @List.takeWhile_append_dropWhile _
          (fun character => !separates character) characters
      have field :
          ∀ character ∈
              characters.takeWhile (fun character => !separates character),
            separates character = false := by
        intro character member
        have kept := List.all_eq_true.mp List.all_takeWhile _ member
        simpa using kept
      have stopped :=
        endsRun_dropWhile (fun character => !separates character)
          characters
      generalize
        characters.dropWhile (fun character => !separates character) =
          behind at split stopped
      cases behind with
      | nil =>
          rw [← split, List.append_nil]
          exact lastField _ field
      | cons separator rest =>
          have separated : separates separator = true := by
            simpa using stopped separator rfl
          have shorter : rest.length < length := by
            rw [← isLength, ← split, List.length_append,
              List.length_cons]
            omega
          rw [← split]
          exact
            append _ separator rest field separated
              (inductionHypothesis _ shorter rest rfl)

/-- Induction over the lines of a text. -/
theorem induction_lines
    {motive : List Char → Prop}
    (lastLine : ∀ line, '\n' ∉ line → motive line)
    (append :
      ∀ line rest,
        '\n' ∉ line → motive rest → motive (line ++ '\n' :: rest))
    (characters : List Char) :
    motive characters := by
  have inline
      {line : List Char}
      (others : ∀ character ∈ line, (character == '\n') = false) :
      '\n' ∉ line := by
    intro member
    cases others _ member
  induction characters
    using @induction_fields (fun character => character == '\n') with
  | lastField line others =>
      exact lastLine line (inline others)
  | append line separator rest others isLineFeed inductionHypothesis =>
      obtain rfl := eq_of_beq isLineFeed
      exact append line rest (inline others) inductionHypothesis

theorem isLineEnd_of_mem_innerKinds
    {line : List Char}
    (inline : '\n' ∉ line) :
    ∀ kind ∈ innerKinds (uncommented line), kind.isLineEnd = false := by
  intro kind member
  obtain ⟨body, gap, shape, inner, -⟩ :=
    (tiling_lexemes (uncommented line)).exists_body
  have closed := inner_of_uncommented inline
  rw [innerKinds, kinds, shape] at member
  rw [shape] at closed
  simp only [List.map_append, List.map_cons, List.map_nil,
    List.dropLast_concat] at member
  obtain ⟨piece, isPiece, rfl⟩ := List.mem_map.mp member
  exact
    closed piece (List.mem_append_left _ isPiece) (inner piece isPiece)

/--
Cut at the tokens that end a line, the tokens of a text are those of its lines,
each without its comment.  A comment in the last line adds a line of no tokens.
-/
theorem splitOnP_kinds
    (characters : List Char) :
    ∃ extra,
      (kinds characters).splitOnP TokenKind.isLineEnd =
          (characters.splitOn '\n').map
              (fun line => innerKinds (uncommented line)) ++
            extra ++ [[]] ∧
        ∀ line ∈ extra, line = [] := by
  induction characters using induction_lines with
  | lastLine line inline =>
      have inner := isLineEnd_of_mem_innerKinds inline
      rw [List.splitOn_eq_singleton inline]
      rcases kinds_lastLine inline with shape | shape
      · refine ⟨[], ?_, List.forall_mem_nil _⟩
        rw [shape,
          List.splitOnP_append_cons_of_forall_mem inner _ rfl]
        rfl
      · refine ⟨[[]], ?_, ?_⟩
        · rw [shape,
            List.splitOnP_append_cons_of_forall_mem inner _ rfl]
          rfl
        · intro line member
          exact List.mem_singleton.mp member
  | append line rest inline inductionHypothesis =>
      obtain ⟨extra, restShape, allEmpty⟩ := inductionHypothesis
      have inner := isLineEnd_of_mem_innerKinds inline
      refine ⟨extra, ?_, allEmpty⟩
      rw [kinds_line_append inline rest,
        List.splitOnP_append_cons_of_forall_mem inner _
          (isLineEnd_lineEnd line),
        restShape, List.splitOn_append_cons_self_of_not_mem inline]
      rfl

end Text

end Iloc
