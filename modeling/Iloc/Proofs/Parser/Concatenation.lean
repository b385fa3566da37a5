import Iloc.Proofs.Parser.Relabelling
import Iloc.Proofs.Scanner.Numbering

namespace Iloc

/-!
# Texts joined at a line feed

Validation is compatible with joining texts.  Two texts with a line feed between
them come to what the first comes to, and then to what the second comes to with
its lines numbered on.  Whatever the first text ends in, the line feed ends it
as the end of the text did, so a mismatch that was found at the end of the text
is found at a line feed instead, and nothing else changes.
-/

universe u

namespace TokenLine

/-- There are as many lines as tokens that end one. -/
theorem length_cut
    (tokens : List Token) :
    (cut tokens).length = tokens.countP (·.kind.isLineEnd) := by
  induction tokens with
  | nil =>
      rfl
  | cons token rest inductionHypothesis =>
      rw [List.countP_cons, ← inductionHypothesis]
      cases ended : token.kind.isLineEnd with
      | true =>
          rw [cut_cons_of_ended ended]
          rfl
      | false =>
          cases restCut : cut rest with
          | nil =>
              simp [cut, ended, restCut]
          | cons line lines =>
              rw [cut_cons_of_inner ended restCut]
              rfl

/-- Behind a token that ends a line the lines are cut anew. -/
theorem cut_append
    (body : List Token)
    {last : Token}
    (ended : last.kind.isLineEnd = true)
    (rest : List Token) :
    cut (body ++ [last] ++ rest) = cut (body ++ [last]) ++ cut rest := by
  induction body with
  | nil =>
      rw [List.nil_append, List.cons_append, List.nil_append,
        cut_cons_of_ended ended, cut_cons_of_ended ended]
      rfl
  | cons token body inductionHypothesis =>
      rw [List.cons_append, List.cons_append]
      cases isEnd : token.kind.isLineEnd with
      | true =>
          rw [cut_cons_of_ended isEnd, cut_cons_of_ended isEnd,
            inductionHypothesis]
          rfl
      | false =>
          cases bodyCut : cut (body ++ [last]) with
          | nil =>
              have none := length_cut (body ++ [last])
              rw [bodyCut] at none
              simp [ended] at none
          | cons line lines =>
              rw [bodyCut] at inductionHypothesis
              rw [cut_cons_of_inner isEnd inductionHypothesis,
                cut_cons_of_inner isEnd bodyCut]
              rfl

theorem diagnosticsFrom_append
    (number : Nat)
    (lines later : List TokenLine) :
    diagnosticsFrom number (lines ++ later) =
      diagnosticsFrom number lines ++
        diagnosticsFrom (number + lines.length) later := by
  rw [diagnosticsFrom, diagnosticsFrom, diagnosticsFrom,
    List.zipIdx_append, List.filterMap_append]

/-- A diagnostic stands on one of the lines. -/
theorem toNat_line_lt
    {number : Nat}
    {lines : List TokenLine} :
    ∀ diagnostic ∈ diagnosticsFrom number lines,
      diagnostic.line.toNat < number + lines.length := by
  induction lines generalizing number with
  | nil =>
      exact List.forall_mem_nil _
  | cons line lines inductionHypothesis =>
      have onFirst : (UInt32.ofNat number).toNat ≤ number :=
        Nat.mod_le _ _
      intro diagnostic member
      rw [diagnosticsFrom_cons, List.mem_append] at member
      rw [List.length_cons]
      rcases member with first | later
      · obtain ⟨error, -, rfl⟩ :=
          Option.map_eq_some_iff.mp (Option.mem_toList.mp first)
        dsimp only
        omega
      · have behind := inductionHypothesis diagnostic later
        omega

/-- Lines that hold nothing add nothing to the program. -/
theorem filterMap_instruction?_of_empty
    {lines : List TokenLine}
    (allEmpty : ∀ line ∈ lines, line.body = []) :
    lines.filterMap instruction? = [] := by
  rw [List.filterMap_eq_nil_iff]
  intro line member
  rw [instruction?, line.judge_eq_blank_iff.mpr (allEmpty line member)]

/-- Lines that hold nothing are not rejected. -/
theorem diagnosticsFrom_of_empty
    (number : Nat)
    {lines : List TokenLine}
    (allEmpty : ∀ line ∈ lines, line.body = []) :
    diagnosticsFrom number lines = [] := by
  rw [diagnosticsFrom, List.filterMap_eq_nil_iff]
  rintro ⟨line, place⟩ member
  have isLine := List.fst_mem_of_mem_zipIdx member
  have judged := line.judge_eq_blank_iff.mpr (allEmpty line isLine)
  simp only [error?, judged, Option.map_none]

end TokenLine

/-- A diagnostic some lines further down. -/
def Diagnostic.shift (lines : Nat) (diagnostic : Diagnostic) : Diagnostic :=
  { diagnostic with line := diagnostic.line + UInt32.ofNat lines }

/-- No line further down is where a diagnostic stands. -/
theorem Diagnostic.shift_zero :
    Diagnostic.shift 0 = id := by
  funext diagnostic
  exact
    congrArg (mk · diagnostic.error) (UInt32.add_zero diagnostic.line)

/-- Lines that are numbered on are rejected further down. -/
theorem TokenLine.diagnosticsFrom_add
    (number before : Nat)
    (lines : List TokenLine) :
    diagnosticsFrom (number + before) lines =
      (diagnosticsFrom number lines).map (Diagnostic.shift before) := by
  induction lines generalizing number with
  | nil =>
      rfl
  | cons line lines inductionHypothesis =>
      have next : number + before + 1 = number + 1 + before := by
        omega
      rw [diagnosticsFrom_cons, diagnosticsFrom_cons, List.map_append,
        next, inductionHypothesis, UInt32.ofNat_add]
      cases line.error? <;> rfl

/-- What the end of a text becomes when a line feed stands there instead. -/
def TokenKind.atLineFeed : TokenKind → TokenKind
  | .eof => .newLine
  | kind => kind

/-- An error of the last line when a line feed stands behind that line. -/
def Diagnostic.atLineFeed (diagnostic : Diagnostic) : Diagnostic :=
  { diagnostic with
    error := diagnostic.error.mapFound TokenKind.atLineFeed }

namespace Relabelling

/-- The end of the text becomes a line feed. -/
def atLineFeed : Relabelling where
  kind := TokenKind.atLineFeed
  line := id
  isLineEnd_kind found := by
    cases found <;> rfl
  kind_inner found inner := by
    cases found with
    | eof => cases inner
    | _ => rfl

/-- All tokens stand some lines further down. -/
def shift (lines : UInt32) : Relabelling where
  kind := id
  line := (· + lines)
  isLineEnd_kind _ := rfl
  kind_inner _ _ := rfl

/-- A line feed at the end of a text changes nothing before it. -/
theorem map_atLineFeed_of_inner
    {tokens : List Token}
    (inner : ∀ token ∈ tokens, token.kind ≠ .eof) :
    tokens.map atLineFeed.token = tokens := by
  have same :
      ∀ token ∈ tokens, atLineFeed.token token = id token := by
    intro token member
    have notEnd := inner token member
    obtain ⟨kind, line⟩ := token
    cases kind with
    | eof => exact absurd rfl notEnd
    | _ => rfl
  rw [List.map_congr_left same, List.map_id]

end Relabelling

theorem StatementError.mapFound_id
    (error : StatementError) :
    error.mapFound id = error := by
  cases error <;> rfl

namespace TokenLine

/-- Lines that stand further down are rejected where the lines are. -/
theorem diagnosticsFrom_shift
    (number : Nat)
    (lines : UInt32)
    (later : List TokenLine) :
    diagnosticsFrom number
        (later.map (Relabelling.shift lines).tokenLine) =
      diagnosticsFrom number later := by
  have same :
      ∀ diagnostic : Diagnostic,
        { diagnostic with error := diagnostic.error.mapFound id } =
          diagnostic := by
    intro diagnostic
    rw [StatementError.mapFound_id]
  rw [Relabelling.diagnosticsFrom_map]
  exact (List.map_congr_left fun diagnostic _ => same diagnostic).trans
    (List.map_id _)

end TokenLine

/-- Before the end of a text the tokens that end lines are those that begin one. -/
theorem Text.countP_isLineEnd
    {kinds : List TokenKind}
    (inner : .eof ∉ kinds) :
    kinds.countP TokenKind.isLineEnd =
      kinds.countP TokenKind.beginsLine := by
  apply List.countP_congr
  intro kind member
  cases kind with
  | eof => exact absurd member inner
  | _ => simp [TokenKind.isLineEnd, TokenKind.beginsLine]

/-- The tokens of a text up to a line feed behind it. -/
def scanToLineFeed (source : String) : List Token :=
  (scan source).dropLast ++
    (Text.joint (Text.lastLine source.toList)).map
      (⟨·, 1 + UInt32.ofNat (source.toList.count '\n')⟩)

namespace scanToLineFeed

variable (source : String)

theorem map_kind :
    (scanToLineFeed source).map (·.kind) =
      Text.innerKinds source.toList ++
        Text.joint (Text.lastLine source.toList) := by
  rw [scanToLineFeed, scan_eq_numberKinds, List.dropLast_concat,
    List.map_append, map_kind_numberKinds, List.map_map]
  exact congrArg _ (List.map_id _)

/-- The line feed is used up by a token that ends the last line. -/
theorem exists_lineEnd :
    ∃ tokens last,
      scanToLineFeed source = tokens ++ [last] ∧
        last.kind.isLineEnd = true := by
  obtain ⟨kinds, lastKind, shape, ended⟩ :=
    Text.exists_lineEnd source.toList
  have kindsShape := (map_kind source).trans shape
  rcases List.eq_nil_or_concat (scanToLineFeed source) with
      empty | ⟨tokens, last, tokensShape⟩
  · rw [empty] at kindsShape
    simp at kindsShape
  · rw [tokensShape, List.concat_eq_append, List.map_append] at kindsShape
    obtain ⟨-, sameLast⟩ := List.append_inj' kindsShape rfl
    have sameKind : last.kind = lastKind := List.head_eq_of_cons_eq sameLast
    refine ⟨tokens, last, tokensShape.trans List.concat_eq_append, ?_⟩
    rw [sameKind]
    exact ended

/-- Up to the line feed there are as many lines as line feeds. -/
theorem length_cut :
    (TokenLine.cut (scanToLineFeed source)).length =
      source.toList.count '\n' + 1 := by
  have inner :
      .eof ∉
        Text.innerKinds source.toList ++
          Text.joint (Text.lastLine source.toList) := by
    intro member
    rcases List.mem_append.mp member with inText | isJoint
    · exact Text.eof_notMem_innerKinds _ inText
    · rw [Text.joint] at isJoint
      split at isJoint <;> simp at isJoint
  have counted := Text.countP_beginsLine_innerKinds source.toList
  rw [← List.countP_append, ← Text.countP_isLineEnd inner,
    ← map_kind, List.countP_map] at counted
  rw [TokenLine.length_cut, ← counted]
  rfl

/--
The lines of a text up to a line feed behind it.  If the text ends in a comment,
then the comment takes the line feed, and the empty line behind the comment is
lost.  Otherwise the end of the text becomes the line feed.
-/
theorem exists_lines :
    ∃ lines extra,
      TokenLine.cut (scan source) = lines ++ extra ∧
        (∀ line ∈ extra, line.body = []) ∧
        TokenLine.cut (scanToLineFeed source) =
          lines.map Relabelling.atLineFeed.tokenLine := by
  have shape := scan_eq_numberKinds source
  have inner :=
    Text.kind_ne_eof_of_mem_numberKinds 1 source.toList
  have unchanged := Relabelling.map_atLineFeed_of_inner inner
  by_cases whole :
      Text.uncommented (Text.lastLine source.toList) =
        Text.lastLine source.toList
  · have lineFed :
        scanToLineFeed source =
          (scan source).map Relabelling.atLineFeed.token := by
      rw [scanToLineFeed, Text.joint, if_pos whole, shape,
        List.dropLast_concat, List.map_append, unchanged]
      rfl
    refine ⟨TokenLine.cut (scan source), [], (List.append_nil _).symm,
      List.forall_mem_nil _, ?_⟩
    rw [lineFed, Relabelling.cut_map]
  · have lineFed :
        scanToLineFeed source =
          numberKinds 1 (Text.innerKinds source.toList) := by
      rw [scanToLineFeed, Text.joint, if_neg whole, shape,
        List.dropLast_concat, List.map_nil, List.append_nil]
    obtain ⟨tokens, last, lastShape, ended⟩ := exists_lineEnd source
    rw [lineFed] at lastShape
    refine ⟨TokenLine.cut (scanToLineFeed source),
      TokenLine.cut
        [⟨.eof, 1 + UInt32.ofNat (source.toList.count '\n')⟩],
      ?_, ?_, ?_⟩
    · rw [shape, lineFed, lastShape, TokenLine.cut_append tokens ended]
    · intro line member
      rw [TokenLine.cut_cons_of_ended rfl, TokenLine.cut,
        List.mem_singleton] at member
      rw [member]
    · rw [← Relabelling.cut_map, lineFed, unchanged]

end scanToLineFeed

/-- The lines of two texts that are joined at a line feed. -/
theorem cut_scan_append
    (first second : String) :
    let feeds := first.toList.count '\n'
    TokenLine.cut (scan (first ++ "\n" ++ second)) =
      TokenLine.cut (scanToLineFeed first) ++
        (TokenLine.cut (scan second)).map
          (Relabelling.shift (UInt32.ofNat (feeds + 1))).tokenLine := by
  intro feeds
  obtain ⟨tokens, last, shape, ended⟩ :=
    scanToLineFeed.exists_lineEnd first
  have joined :
      scan (first ++ "\n" ++ second) =
        scanToLineFeed first ++
          (scan second).map
            (Relabelling.shift (UInt32.ofNat (feeds + 1))).token :=
    scan_append_lineFeed first second
  rw [joined, shape, TokenLine.cut_append tokens ended,
    Relabelling.cut_map]

/-- The program of joined texts is that of the one, then that of the other. -/
theorem program_append
    (first second : String) :
    TokenLine.program
        (TokenLine.cut (scan (first ++ "\n" ++ second))) =
      TokenLine.program (TokenLine.cut (scan first)) ++
        TokenLine.program (TokenLine.cut (scan second)) := by
  obtain ⟨lines, extra, shape, allEmpty, lineFed⟩ :=
    scanToLineFeed.exists_lines first
  have none := TokenLine.filterMap_instruction?_of_empty allEmpty
  simp only [TokenLine.program]
  rw [cut_scan_append, lineFed, shape, List.filterMap_append,
    Relabelling.filterMap_instruction?,
    Relabelling.filterMap_instruction?, List.filterMap_append, none,
    List.append_nil, List.append_toArray]

/--
The diagnostics of joined texts: those of the one, which now ends at a line
feed, and those of the other, which stands below it.
-/
theorem diagnostics_append
    (first second : String) :
    let feeds := first.toList.count '\n'
    TokenLine.diagnostics
        (TokenLine.cut (scan (first ++ "\n" ++ second))) =
      (TokenLine.diagnostics (TokenLine.cut (scan first))).map
          Diagnostic.atLineFeed ++
        (TokenLine.diagnostics (TokenLine.cut (scan second))).map
          (Diagnostic.shift (feeds + 1)) := by
  intro feeds
  obtain ⟨lines, extra, shape, allEmpty, lineFed⟩ :=
    scanToLineFeed.exists_lines first
  have none number :=
    TokenLine.diagnosticsFrom_of_empty number allEmpty
  have counted := scanToLineFeed.length_cut first
  simp only [TokenLine.diagnostics, List.map_toArray,
    List.append_toArray]
  rw [cut_scan_append, TokenLine.diagnosticsFrom_append, counted,
    TokenLine.diagnosticsFrom_shift, TokenLine.diagnosticsFrom_add,
    lineFed, Relabelling.diagnosticsFrom_map, shape,
    TokenLine.diagnosticsFrom_append, none, List.append_nil]
  rfl

/-- Diagnostics that stand further down stand on exactly that line. -/
theorem Diagnostic.toNat_line_shift
    {lines : List TokenLine}
    {before : Nat}
    (small : lines.length + before < UInt32.size)
    (diagnostic : Diagnostic)
    (found : diagnostic ∈ TokenLine.diagnostics lines) :
    (diagnostic.shift before).line.toNat =
      diagnostic.line.toNat + before := by
  have onLine :=
    TokenLine.toNat_line_lt diagnostic (List.mem_toArray.mp found)
  have exactShift : (UInt32.ofNat before).toNat = before :=
    UInt32.toNat_ofNat_of_lt (by omega)
  rw [Diagnostic.shift, UInt32.toNat_add, exactShift]
  apply Nat.mod_eq_of_lt
  have size : UInt32.size = 2 ^ 32 := rfl
  omega

theorem program_empty :
    TokenLine.program (TokenLine.cut (scan "")) = #[] := by
  decide +kernel

theorem diagnostics_empty :
    TokenLine.diagnostics (TokenLine.cut (scan "")) = #[] := by
  decide +kernel

/-- A line feed at the end of a text adds no instruction. -/
theorem program_lineFeed
    (source : String) :
    TokenLine.program (TokenLine.cut (scan (source ++ "\n"))) =
      TokenLine.program (TokenLine.cut (scan source)) := by
  have shape : source ++ "\n" = source ++ "\n" ++ "" :=
    String.append_empty.symm
  rw [shape, program_append, program_empty, Array.append_empty]

/-- A line feed at the end of a text is where its last error is found. -/
theorem diagnostics_lineFeed
    (source : String) :
    TokenLine.diagnostics (TokenLine.cut (scan (source ++ "\n"))) =
      (TokenLine.diagnostics (TokenLine.cut (scan source))).map
        Diagnostic.atLineFeed := by
  have shape : source ++ "\n" = source ++ "\n" ++ "" :=
    String.append_empty.symm
  rw [shape, diagnostics_append, diagnostics_empty, Array.map_empty,
    Array.append_empty]

/-- A text of nothing but line feeds. -/
def Text.lineFeeds (number : Nat) : String :=
  String.ofList (List.replicate number '\n')

/-- The line feeds of joined texts are those of the texts and one more. -/
theorem count_lineFeed_append
    (first second : String) :
    (first ++ "\n" ++ second).toList.count '\n' =
      first.toList.count '\n' + second.toList.count '\n' + 1 := by
  simp [Nat.add_assoc]

/-- A line feed at the end of a text is no more than where it ends. -/
theorem validate_lineFeed
    {source : String}
    (small : source.toList.count '\n' + 4 ≤ UInt32.size) :
    validate (source ++ "\n") =
      ⟨(validate source).program,
        (validate source).diagnostics.map Diagnostic.atLineFeed⟩ := by
  have fed : (source ++ "\n").toList.count '\n' + 3 ≤ UInt32.size := by
    simpa using small
  rw [validate_eq fed, validate_eq (Nat.le_of_succ_le small),
    program_lineFeed, diagnostics_lineFeed]

section validate

variable {σ : Type u}

/--
Validation of two texts that are joined at a line feed.  The programs follow
one on the other.  So do the diagnostics: those of the first text name a line
feed where they named the end of the text, and those of the second one stand
below the lines of the first.  No rejected line is counted twice or lost.

In particular a line feed at the end of a text changes neither its program nor
the lines that are rejected.
-/
theorem validate_append
    (first second : String)
    (small :
      (first ++ "\n" ++ second).toList.count '\n' ≤ 2 ^ 32 - 3) :
    let joined := first ++ "\n" ++ second
    let feeds := first.toList.count '\n'
    (validate joined).program =
        (validate first).program ++ (validate second).program ∧
      (validate joined).diagnostics =
        (validate first).diagnostics.map Diagnostic.atLineFeed ++
          (validate second).diagnostics.map
            (Diagnostic.shift (feeds + 1)) ∧
      (∀ diagnostic ∈ (validate second).diagnostics,
        (diagnostic.shift (feeds + 1)).line.toNat =
          diagnostic.line.toNat + (feeds + 1)) ∧
      (∀ (listener : Listener σ) (sink : σ),
        (parse listener sink joined).1.errorCount =
          (parse listener sink first).1.errorCount +
            (parse listener sink second).1.errorCount) ∧
      (validate (first ++ "\n")).program = (validate first).program ∧
      (validate (first ++ "\n")).diagnostics.map (·.line) =
        (validate first).diagnostics.map (·.line) := by
  intro joined feeds
  have size : UInt32.size = 2 ^ 32 := rfl
  have counted : joined.toList.count '\n' = _ :=
    count_lineFeed_append first second
  have ofJoined : joined.toList.count '\n' + 3 ≤ UInt32.size := by
    dsimp only [joined]
    omega
  have ofFirst : first.toList.count '\n' + 4 ≤ UInt32.size := by
    omega
  have ofSecond : second.toList.count '\n' + 3 ≤ UInt32.size := by
    omega
  have firstValidated := validate_eq (Nat.le_of_succ_le ofFirst)
  have joinedDiagnostics := diagnostics_append first second
  refine ⟨?_, ?_, ?_, ?_, ?_, ?_⟩
  · rw [validate_eq ofJoined, firstValidated, validate_eq ofSecond]
    exact program_append first second
  · rw [validate_eq ofJoined, firstValidated, validate_eq ofSecond]
    exact joinedDiagnostics
  · have fits := length_cut_scan_lt ofJoined
    rw [cut_scan_append, List.length_append, List.length_map,
      scanToLineFeed.length_cut] at fits
    rw [validate_eq ofSecond]
    exact Diagnostic.toNat_line_shift (by dsimp only [feeds]; omega)
  · intro listener sink
    rw [report_parse ofJoined, report_parse (Nat.le_of_succ_le ofFirst),
      report_parse ofSecond, joinedDiagnostics, Array.size_append,
      Array.size_map, Array.size_map]
  · rw [validate_lineFeed ofFirst]
  · rw [validate_lineFeed ofFirst, Array.map_map]
    rfl

/--
The first text ends inside a statement, which then ends at the line feed.  The
second text is rejected two lines further down.
-/
theorem validate_append_unfinished :
    let first := "nop // one\nadd r1,"
    let second := "foo\noutput 7"
    (first ++ "\n" ++ second).toList.count '\n' ≤ 2 ^ 32 - 3 ∧
      (validate first).diagnostics =
        #[⟨2, .mismatch .arithOp .register .eof⟩] ∧
      (validate second).diagnostics =
        #[⟨1, .notAnOpcode (.error .unknownWord)⟩] ∧
      (validate (first ++ "\n" ++ second)).program =
        #[.nop, .output 7] ∧
      (validate (first ++ "\n" ++ second)).diagnostics =
        #[⟨2, .mismatch .arithOp .register .newLine⟩,
          ⟨3, .notAnOpcode (.error .unknownWord)⟩] := by
  intro first second
  have small :
      (first ++ "\n" ++ second).toList.count '\n' ≤ 2 ^ 32 - 3 := by
    decide
  have firstValidated :
      validate first =
        ⟨#[.nop], #[⟨2, .mismatch .arithOp .register .eof⟩]⟩ := by
    decide +kernel
  have secondValidated :
      validate second =
        ⟨#[.output 7], #[⟨1, .notAnOpcode (.error .unknownWord)⟩]⟩ := by
    decide +kernel
  obtain ⟨program, diagnostics, -⟩ :=
    @validate_append Unit first second small
  rw [firstValidated, secondValidated] at program diagnostics
  refine ⟨small, ?_, ?_, program, diagnostics.trans (by decide +kernel)⟩
  · rw [firstValidated]
  · rw [secondValidated]

end validate

end Iloc
