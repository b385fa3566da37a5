import Iloc.Proofs.Parser.Concatenation
import Iloc.Proofs.Scanner.NormalForm

namespace Iloc

/-!
# Behind a mismatch

A line is wrong at its first token that does not fit.  What stands behind that
token is discarded up to the end of the line, so it has no influence: not on
the error, not on the lines below, and not on their numbers.  It may hold
statements, lexical errors, or slashes that begin a comment.

A mismatch with the end of the text is another matter, for there the line may
still be completed.
-/

/-- What stands behind the first mismatch is left unread. -/
theorem firstMismatch?_append
    {pattern : List Terminal}
    {tokens : List Token}
    {mismatch : Mismatch}
    (found : firstMismatch? pattern tokens = some mismatch)
    (more : List Token) :
    firstMismatch? pattern (tokens ++ more) =
      some { mismatch with unread := mismatch.unread ++ more } := by
  induction pattern generalizing tokens mismatch with
  | nil =>
      cases found
  | cons place pattern inductionHypothesis =>
      cases tokens with
      | nil =>
          cases found
      | cons token rest =>
          rw [firstMismatch?] at found
          rw [List.cons_append, firstMismatch?]
          split at found
          · rename_i fits
            obtain ⟨later, foundLater, rfl⟩ :=
              Option.map_eq_some_iff.mp found
            rw [if_pos fits, inductionHypothesis foundLater]
            rfl
          · rename_i misfits
            cases found
            rw [if_neg misfits]

/-- If all tokens but the last one fit, a mismatch is with the last one. -/
theorem found_of_firstMismatch?_concat
    {pattern : List Terminal}
    {tokens : List Token}
    {last : Token}
    {mismatch : Mismatch}
    (fits : firstMismatch? pattern tokens = none)
    (found : firstMismatch? pattern (tokens ++ [last]) = some mismatch) :
    mismatch.found = last := by
  induction pattern generalizing tokens mismatch with
  | nil =>
      cases found
  | cons place pattern inductionHypothesis =>
      cases tokens with
      | nil =>
          rw [List.nil_append, firstMismatch?] at found
          split at found
          · cases pattern <;> cases found
          · cases found
            rfl
      | cons token rest =>
          rw [firstMismatch?] at fits
          rw [List.cons_append, firstMismatch?] at found
          split at fits
          · rename_i admitted
            rw [if_pos admitted] at found
            obtain ⟨later, foundLater, rfl⟩ :=
              Option.map_eq_some_iff.mp found
            have restFits := Option.map_eq_none_iff.mp fits
            exact @inductionHypothesis rest later restFits foundLater
          · cases fits

namespace TokenLine

/-- The error of a line that starts with an opcode. -/
theorem error?_of_opcode
    {line : TokenLine}
    {first : Token}
    {operands : List Token}
    {opcode : Opcode}
    (bodyShape : line.body = first :: operands)
    (isOpcode : first.kind = .opcode opcode) :
    line.error? =
      (firstMismatch? opcode.opClass.pattern
          (operands ++ [line.terminator])).map fun mismatch =>
        .mismatch opcode.opClass mismatch.expected mismatch.found.kind := by
  rw [error?, judge, bodyShape]
  dsimp only
  rw [isOpcode]
  dsimp only
  cases firstMismatch? opcode.opClass.pattern
      (operands ++ [line.terminator]) with
  | none =>
      cases opcode.instruction? (operands.filterMap (·.kind.operand?)) <;>
        rfl
  | some mismatch =>
      rfl

/-- The error of a line that starts with anything else. -/
theorem error?_of_misplaced
    {line : TokenLine}
    {first : Token}
    {operands : List Token}
    (bodyShape : line.body = first :: operands)
    (misplaced : first.kind.opcode? = none) :
    line.error? = some (.notAnOpcode first.kind) := by
  rw [error?, judge, bodyShape]
  obtain ⟨kind, number⟩ := first
  cases kind with
  | opcode opcode => cases misplaced
  | _ => rfl

/-- A line that is wrong before its end is wrong however it goes on. -/
theorem error?_of_longer
    {line longer : TokenLine}
    {more : List Token}
    {error : StatementError}
    (longerShape : longer.body = line.body ++ more)
    (wrong : line.error? = some error)
    (inside : error.found ≠ line.terminator.kind) :
    longer.error? = some error := by
  cases bodyShape : line.body with
  | nil =>
      rw [error?, line.judge_eq_blank_iff.mpr bodyShape] at wrong
      cases wrong
  | cons first operands =>
      rw [bodyShape, List.cons_append] at longerShape
      cases isOpcode : first.kind with
      | opcode opcode =>
          rw [error?_of_opcode bodyShape isOpcode] at wrong
          obtain ⟨mismatch, found, rfl⟩ := Option.map_eq_some_iff.mp wrong
          rw [error?_of_opcode longerShape isOpcode, List.append_assoc]
          cases behind :
              firstMismatch? opcode.opClass.pattern operands with
          | none =>
              have last := found_of_firstMismatch?_concat behind found
              exact absurd (congrArg Token.kind last) inside
          | some earlier =>
              rw [firstMismatch?_append behind] at found ⊢
              cases found
              rfl
      | _ =>
          have misplaced : first.kind.opcode? = none := by
            rw [isOpcode]
            rfl
          rw [error?_of_misplaced bodyShape misplaced] at wrong
          rw [error?_of_misplaced longerShape misplaced]
          exact wrong

/-- A line of tokens is cut off in front of others. -/
theorem cut_tokens_append
    (line : TokenLine)
    (rest : List Token) :
    cut (line.tokens ++ rest) = line :: cut rest := by
  obtain ⟨body, terminator, inner, ended⟩ := line
  induction body with
  | nil => exact cut_cons_of_ended ended rest
  | cons token body inductionHypothesis =>
      obtain ⟨isInner, bodyInner⟩ := List.forall_mem_cons.mp inner
      exact cut_cons_of_inner isInner (inductionHypothesis bodyInner)

/-- Of lines that hold nothing but the first, the first tells everything. -/
theorem results_of_first
    {first : TokenLine}
    {extra : List TokenLine}
    (allEmpty : ∀ line ∈ extra, line.body = []) :
    program (first :: extra) = first.instruction?.toList.toArray ∧
      diagnostics (first :: extra) =
        (first.error?.map fun error =>
          Diagnostic.mk 1 error).toList.toArray := by
  constructor
  · rw [program, List.filterMap_cons,
      filterMap_instruction?_of_empty allEmpty]
    cases first.instruction? <;> rfl
  · rw [diagnostics, diagnosticsFrom_cons,
      diagnosticsFrom_of_empty 2 allEmpty, List.append_nil]
    rfl

theorem instruction?_of_error?
    {line : TokenLine}
    {error : StatementError}
    (wrong : line.error? = some error) :
    line.instruction? = none := by
  rw [error?] at wrong
  rw [instruction?]
  cases judged : line.judge with
  | rejected _ _ _ => rfl
  | blank => rfl
  | accepted _ =>
      rw [judged] at wrong
      cases wrong

end TokenLine

/-- The lines of tokens in one line of text: one, and what a comment leaves. -/
theorem exists_cut_of_inline
    {source : String}
    (inline : '\n' ∉ source.toList) :
    ∃ first extra,
      TokenLine.cut (scan source) = first :: extra ∧
        (∀ line ∈ extra, line.body = []) ∧
        first.body =
          numberKinds 1
            (Text.innerKinds (Text.uncommented source.toList)) ∧
        first.terminator.kind =
          if Text.uncommented source.toList = source.toList then
            .eof
          else
            .comment := by
  let kinds := Text.innerKinds (Text.uncommented source.toList)
  have inner :
      ∀ token ∈ numberKinds 1 kinds, token.kind.isLineEnd = false := by
    intro token member
    apply Text.isLineEnd_of_mem_innerKinds inline
    rw [← map_kind_numberKinds 1 (Text.innerKinds _)]
    exact List.mem_map_of_mem member
  have shape := scan_eq_numberKinds source
  rw [Text.innerKinds_line inline, numberKinds_append,
    List.append_assoc] at shape
  by_cases whole : Text.uncommented source.toList = source.toList
  · let first : TokenLine :=
      ⟨numberKinds 1 kinds,
        ⟨.eof, 1 + UInt32.ofNat (source.toList.count '\n')⟩, inner, rfl⟩
    have scanned : scan source = first.tokens ++ [] := by
      rw [shape, if_pos whole]
      exact (List.append_nil first.tokens).symm
    refine ⟨first, [], ?_, List.forall_mem_nil _, rfl, ?_⟩
    · rw [scanned]
      exact first.cut_tokens_append []
    · rw [if_pos whole]
  · let first : TokenLine :=
      ⟨numberKinds 1 kinds,
        ⟨.comment,
          1 + UInt32.ofNat (kinds.countP TokenKind.beginsLine)⟩,
        inner, rfl⟩
    let last : Token :=
      ⟨.eof, 1 + UInt32.ofNat (source.toList.count '\n')⟩
    have scanned : scan source = first.tokens ++ [last] := by
      rw [shape, if_neg whole, TokenLine.tokens, List.append_assoc]
      rfl
    refine ⟨first, TokenLine.cut [last], ?_, ?_, rfl, ?_⟩
    · rw [scanned]
      exact first.cut_tokens_append [last]
    · intro line member
      rw [TokenLine.cut_cons_of_ended rfl, TokenLine.cut,
        List.mem_singleton] at member
      rw [member]
    · rw [if_neg whole]

/-- In a comment it makes no difference what is added to a line. -/
theorem scan_append_of_commented
    {source more : String}
    (inline : '\n' ∉ (source ++ more).toList)
    (commented : Text.uncommented source.toList ≠ source.toList) :
    scan (source ++ more) = scan source := by
  rw [String.toList_append] at inline
  have sourceInline : '\n' ∉ source.toList := by
    intro member
    exact inline (List.mem_append_left _ member)
  obtain ⟨comment, split⟩ :=
    (Text.uncommented_cases source.toList).resolve_left commented
  have joined :
      source.toList ++ more.toList =
        Text.uncommented source.toList ++
          '/' :: '/' :: (comment ++ more.toList) :=
    (congrArg (· ++ more.toList) split).trans (by simp)
  have stillCommented :
      Text.uncommented (source.toList ++ more.toList) ≠
        source.toList ++ more.toList := by
    rw [joined]
    exact Text.uncommented_ne_append _ _ _
  have same :
      Text.uncommented (source.toList ++ more.toList) =
        Text.uncommented source.toList := by
    rw [joined, Text.uncommented_append,
      ← Text.uncommented_append _ comment, ← split]
  apply scan_eq_of_kinds
  · rw [String.toList_append, Text.kinds_eq,
      Text.kinds_eq source.toList, Text.innerKinds_line inline,
      Text.innerKinds_line sourceInline, if_neg commented,
      if_neg stillCommented, same]
  · rw [String.toList_append, List.count_eq_zero_of_not_mem inline,
      List.count_eq_zero_of_not_mem sourceInline]

/-- A blank is no slash, so no comment begins where it joins two texts. -/
theorem Text.uncommented_append_blank
    {before : List Char}
    (whole : uncommented before = before)
    (rest : List Char) :
    uncommented (before ++ ' ' :: rest) =
      before ++ ' ' :: uncommented rest := by
  induction before with
  | nil =>
      rfl
  | cons first before inductionHypothesis =>
      rw [uncommented] at whole
      split at whole
      · cases whole
      · rename_i noComment
        have stillNone :
            ¬ (first = '/' ∧
              (before ++ ' ' :: rest).head? = some '/') := by
          rintro ⟨isSlash, second⟩
          apply noComment
          refine ⟨isSlash, ?_⟩
          cases before with
          | nil => cases second
          | cons next before => exact second
        rw [List.cons_append, uncommented, if_neg stillNone,
          inductionHypothesis (List.tail_eq_of_cons_eq whole)]
        rfl

/-- Behind a blank the tokens of a line go on. -/
theorem Text.exists_innerKinds_append_blank
    {before : List Char}
    (inline : '\n' ∉ before)
    (whole : uncommented before = before)
    (rest : List Char) :
    ∃ more,
      innerKinds (uncommented (before ++ ' ' :: rest)) =
        innerKinds before ++ more := by
  have closed := inner_of_uncommented inline
  rw [whole] at closed
  refine ⟨innerKinds (uncommented rest), ?_⟩
  rw [uncommented_append_blank whole, innerKinds,
    kinds_append_blank closed (by decide), kinds_eq (uncommented rest),
    ← List.append_assoc, List.dropLast_concat]

/-- A text of one line has at most one diagnostic. -/
theorem diagnostics_of_inline
    {source : String}
    {diagnostic : Diagnostic}
    (inline : '\n' ∉ source.toList)
    (reported :
      diagnostic ∈ TokenLine.diagnostics (TokenLine.cut (scan source))) :
    TokenLine.diagnostics (TokenLine.cut (scan source)) = #[diagnostic] ∧
      diagnostic.line = 1 := by
  obtain ⟨first, extra, shape, allEmpty, -⟩ := exists_cut_of_inline inline
  obtain ⟨-, diagnostics⟩ := TokenLine.results_of_first allEmpty
  rw [← shape] at diagnostics
  rw [diagnostics] at reported ⊢
  rw [List.mem_toArray, Option.mem_toList] at reported
  rw [reported]
  obtain ⟨error, -, rfl⟩ := Option.map_eq_some_iff.mp reported
  exact ⟨rfl, rfl⟩

/--
A line that is wrong before its end comes to its error and to nothing else,
whatever stands behind a blank after it.
-/
theorem results_behind_mismatch
    {wrong rest : String}
    {diagnostic : Diagnostic}
    (inline : '\n' ∉ wrong.toList)
    (restInline : '\n' ∉ rest.toList)
    (reported :
      diagnostic ∈ TokenLine.diagnostics (TokenLine.cut (scan wrong)))
    (inside : diagnostic.error.found ≠ .eof) :
    let lines := TokenLine.cut (scan (wrong ++ " " ++ rest))
    TokenLine.program lines = #[] ∧
      TokenLine.diagnostics lines = #[diagnostic] := by
  have joinedList :
      (wrong ++ " " ++ rest).toList =
        wrong.toList ++ ' ' :: rest.toList := by
    simp
  have joinedInline : '\n' ∉ (wrong ++ " " ++ rest).toList := by
    simp [inline, restInline]
  obtain ⟨first, extra, shape, allEmpty, body, terminator⟩ :=
    exists_cut_of_inline inline
  obtain ⟨longer, more, longerShape, longerEmpty, longerBody, -⟩ :=
    exists_cut_of_inline joinedInline
  obtain ⟨-, diagnostics⟩ := TokenLine.results_of_first allEmpty
  rw [← shape] at diagnostics
  rw [diagnostics, List.mem_toArray, Option.mem_toList] at reported
  obtain ⟨error, wrongFirst, rfl⟩ := Option.map_eq_some_iff.mp reported
  have wrongLonger : longer.error? = some error := by
    by_cases whole : Text.uncommented wrong.toList = wrong.toList
    · obtain ⟨later, kinds⟩ :=
        Text.exists_innerKinds_append_blank inline whole rest.toList
      rw [if_pos whole] at terminator
      rw [joinedList, kinds, numberKinds_append] at longerBody
      rw [whole] at body
      rw [← body] at longerBody
      refine TokenLine.error?_of_longer longerBody wrongFirst ?_
      rw [terminator]
      exact inside
    · rw [String.append_assoc] at joinedInline longerShape
      rw [scan_append_of_commented joinedInline whole, shape,
        List.cons.injEq] at longerShape
      rw [← longerShape.1]
      exact wrongFirst
  obtain ⟨program, told⟩ := TokenLine.results_of_first longerEmpty
  rw [← longerShape] at program told
  rw [TokenLine.instruction?_of_error? wrongLonger] at program
  rw [wrongLonger] at told
  exact ⟨program, told⟩

/-- Behind whole lines a text comes to what it comes to alone, further down. -/
theorem exists_results_before
    {before : String}
    (whole : before = "" ∨ ∃ earlier, before = earlier ++ "\n") :
    ∃ program diagnostics,
      ∀ source,
        let lines := TokenLine.cut (scan source)
        let joined := TokenLine.cut (scan (before ++ source))
        TokenLine.program joined = program ++ TokenLine.program lines ∧
          TokenLine.diagnostics joined =
            diagnostics ++
              (TokenLine.diagnostics lines).map
                (Diagnostic.shift (before.toList.count '\n')) := by
  rcases whole with rfl | ⟨earlier, rfl⟩
  · refine ⟨#[], #[], ?_⟩
    intro source lines joined
    have nothing : joined = lines := by
      dsimp only [joined, lines]
      rw [String.empty_append]
    rw [nothing, Array.empty_append, Array.empty_append]
    exact ⟨rfl, by simp [Diagnostic.shift_zero]⟩
  · have counted :
        (earlier ++ "\n").toList.count '\n' =
          earlier.toList.count '\n' + 1 := by
      simp
    rw [counted]
    let lines := TokenLine.cut (scan earlier)
    refine ⟨TokenLine.program lines,
      (TokenLine.diagnostics lines).map Diagnostic.atLineFeed, ?_⟩
    intro source
    exact
      ⟨program_append earlier source, diagnostics_append earlier source⟩

/-- A mismatch that is not with the end of the text stays as it is. -/
theorem Diagnostic.atLineFeed_eq_self
    {diagnostic : Diagnostic}
    (inside : diagnostic.error.found ≠ .eof) :
    diagnostic.atLineFeed = diagnostic := by
  have sameKind :
      ∀ found : TokenKind, found ≠ .eof → found.atLineFeed = found := by
    intro found notEnd
    cases found with
    | eof => exact absurd rfl notEnd
    | _ => rfl
  obtain ⟨line, error⟩ := diagnostic
  cases error with
  | mismatch opClass expected found =>
      exact
        congrArg (fun kind => mk line (.mismatch opClass expected kind))
          (sameKind found inside)
  | notAnOpcode found =>
      exact
        congrArg (fun kind => mk line (.notAnOpcode kind))
          (sameKind found inside)

/--
A line that is wrong before its end, with lines above and below: what the text
comes to does not tell what stands behind the mismatch.
-/
theorem exists_results_around
    {before wrong : String}
    {diagnostic : Diagnostic}
    (whole : before = "" ∨ ∃ earlier, before = earlier ++ "\n")
    (inline : '\n' ∉ wrong.toList)
    (reported :
      diagnostic ∈ TokenLine.diagnostics (TokenLine.cut (scan wrong)))
    (inside : diagnostic.error.found ≠ .eof)
    (after : String) :
    let feeds := before.toList.count '\n'
    ∃ program above below,
      ∀ behind : String,
        '\n' ∉ behind.toList →
        let text := before ++ wrong ++ " " ++ behind ++ "\n" ++ after
        let lines := TokenLine.cut (scan text)
        TokenLine.program lines = program ∧
          TokenLine.diagnostics lines =
            above ++ #[diagnostic.shift feeds] ++ below := by
  intro feeds
  obtain ⟨program, diagnostics, resultsBefore⟩ :=
    exists_results_before whole
  let later := TokenLine.cut (scan after)
  refine ⟨program ++ TokenLine.program later,
    diagnostics.map Diagnostic.atLineFeed,
    (TokenLine.diagnostics later).map (Diagnostic.shift (feeds + 1)), ?_⟩
  intro behind behindInline text lines
  let line := wrong ++ " " ++ behind
  have textShape : text = before ++ line ++ "\n" ++ after := by
    simp only [text, line, String.append_assoc]
  have counted : (before ++ line).toList.count '\n' = feeds := by
    simp [line, feeds, List.count_eq_zero_of_not_mem inline,
      List.count_eq_zero_of_not_mem behindInline]
  obtain ⟨noProgram, onlyDiagnostic⟩ :=
    results_behind_mismatch inline behindInline reported inside
  obtain ⟨linesProgram, linesDiagnostics⟩ := resultsBefore line
  rw [noProgram, Array.append_empty] at linesProgram
  rw [onlyDiagnostic] at linesDiagnostics
  have stays : (diagnostic.shift feeds).atLineFeed = diagnostic.shift feeds :=
    Diagnostic.atLineFeed_eq_self inside
  constructor
  · dsimp only [lines]
    rw [textShape, program_append, linesProgram]
  · dsimp only [lines]
    rw [textShape, diagnostics_append, linesDiagnostics, counted,
      Array.map_append, Array.map_singleton, Array.map_singleton, stays]

/-- Among diagnostics in ascending order each line has at most one. -/
theorem filter_line_of_ascending
    {diagnostics : List Diagnostic}
    (ascending : diagnostics.Pairwise (·.line < ·.line))
    {diagnostic : Diagnostic}
    (member : diagnostic ∈ diagnostics) :
    diagnostics.filter (·.line.toNat = diagnostic.line.toNat) =
      [diagnostic] := by
  induction ascending with
  | nil =>
      cases member
  | @cons first rest below ascending inductionHypothesis =>
      rcases List.mem_cons.mp member with rfl | later
      · have none :
            rest.filter (·.line.toNat = diagnostic.line.toNat) = [] := by
          rw [List.filter_eq_nil_iff]
          intro other inRest
          have isBelow := UInt32.lt_iff_toNat_lt.mp (below other inRest)
          simp only [decide_eq_true_eq]
          omega
        rw [List.filter_cons, if_pos (decide_eq_true rfl), none]
      · have isBelow := UInt32.lt_iff_toNat_lt.mp (below diagnostic later)
        rw [List.filter_cons, if_neg, inductionHypothesis later]
        simp only [decide_eq_true_eq]
        omega

/-- Each line of a text has at most one diagnostic. -/
theorem filter_diagnostics
    {source : String}
    (small : source.toList.count '\n' + 3 ≤ UInt32.size)
    {diagnostic : Diagnostic}
    (member :
      diagnostic ∈ TokenLine.diagnostics (TokenLine.cut (scan source))) :
    (TokenLine.diagnostics (TokenLine.cut (scan source))).filter
        (·.line.toNat = diagnostic.line.toNat) =
      #[diagnostic] := by
  have fits := length_cut_scan_lt small
  obtain ⟨ascending, -⟩ :=
    TokenLine.ascending_diagnosticsFrom 1 (TokenLine.cut (scan source))
      (by omega)
  have isListed := List.mem_toArray.mp member
  rw [TokenLine.diagnostics, List.filter_toArray,
    filter_line_of_ascending ascending isListed]

/-- A diagnostic of the first line, some lines further down. -/
theorem Diagnostic.toNat_line_shift_of_first
    {diagnostic : Diagnostic}
    (onFirst : diagnostic.line = 1)
    {lines : Nat}
    (small : lines + 1 < UInt32.size) :
    (diagnostic.shift lines).line.toNat = lines + 1 := by
  have exactLines : (UInt32.ofNat lines).toNat = lines :=
    UInt32.toNat_ofNat_of_lt (Nat.lt_of_succ_lt small)
  rw [shift, onFirst, UInt32.toNat_add, exactLines, Nat.add_comm]
  exact Nat.mod_eq_of_lt small

/--
Nothing behind the first mismatch of a line has any influence.  Texts that
differ only there are validated alike, and the line has one diagnostic, which is
the one that it has without anything behind it.
-/
theorem validate_behind_mismatch
    {before wrong rest other after : String}
    (whole : before = "" ∨ ∃ earlier, before = earlier ++ "\n")
    (inline : '\n' ∉ wrong.toList)
    (restInline : '\n' ∉ rest.toList)
    (otherInline : '\n' ∉ other.toList)
    (mismatched :
      ∃ diagnostic ∈ (validate wrong).diagnostics,
        diagnostic.error.found ≠ .eof)
    (small :
      (before ++ wrong ++ " " ++ rest ++ "\n" ++ after).toList.count '\n' ≤
        2 ^ 32 - 3) :
    let text (behind : String) :=
      before ++ wrong ++ " " ++ behind ++ "\n" ++ after
    let feeds := before.toList.count '\n'
    validate (text rest) = validate (text other) ∧
      ∃ diagnostic,
        (validate wrong).diagnostics = #[diagnostic] ∧
          (validate (text rest)).diagnostics.filter
              (·.line.toNat = feeds + 1) =
            #[diagnostic.shift feeds] := by
  intro text feeds
  have size : UInt32.size = 2 ^ 32 := rfl
  obtain ⟨diagnostic, reported, inside⟩ := mismatched
  have wrongSmall : wrong.toList.count '\n' + 3 ≤ UInt32.size := by
    rw [List.count_eq_zero_of_not_mem inline]
    decide
  rw [validate_eq wrongSmall] at reported
  obtain ⟨program, above, below, results⟩ :=
    exists_results_around whole inline reported inside after
  have sameFeeds :
      (text other).toList.count '\n' = (text rest).toList.count '\n' := by
    simp [text, List.count_eq_zero_of_not_mem restInline,
      List.count_eq_zero_of_not_mem otherInline]
  have restSmall : (text rest).toList.count '\n' + 3 ≤ UInt32.size := by
    dsimp only [text]
    omega
  have otherSmall : (text other).toList.count '\n' + 3 ≤ UInt32.size := by
    rw [sameFeeds]
    exact restSmall
  obtain ⟨restProgram, restDiagnostics⟩ := results rest restInline
  obtain ⟨otherProgram, otherDiagnostics⟩ := results other otherInline
  obtain ⟨only, onFirst⟩ := diagnostics_of_inline inline reported
  rw [validate_eq restSmall, validate_eq otherSmall, validate_eq wrongSmall]
  refine ⟨?_, diagnostic, only, ?_⟩
  · rw [restProgram, otherProgram, restDiagnostics, otherDiagnostics]
  · have bounded : feeds + 1 < UInt32.size := by
      have above : feeds ≤ (text rest).toList.count '\n' := by
        simp only [text, String.append_assoc, String.toList_append,
          List.count_append]
        exact Nat.le_add_right _ _
      omega
    have onLine :=
      Diagnostic.toNat_line_shift_of_first onFirst bounded
    have member :
        diagnostic.shift feeds ∈
          TokenLine.diagnostics (TokenLine.cut (scan (text rest))) := by
      rw [restDiagnostics]
      apply Array.mem_append_left
      apply Array.mem_append_right
      exact Array.mem_singleton.mpr rfl
    have filtered := filter_diagnostics restSmall member
    rw [onLine] at filtered
    exact filtered

/-- Tokens that make no statement and a comment come to the same. -/
theorem validate_behind_mismatch_comment :
    let wrong := "add r1 r2"
    let text (behind : String) :=
      "nop\n" ++ wrong ++ " " ++ behind ++ "\n" ++ "output 7"
    (∃ diagnostic ∈ (validate wrong).diagnostics,
        diagnostic.error.found ≠ .eof) ∧
      (text "nop = ;").toList.count '\n' ≤ 2 ^ 32 - 3 ∧
      validate (text "nop = ;") = validate (text "// as above") ∧
      validate (text "nop = ;") =
        ⟨#[.nop, .output 7],
          #[⟨2, .mismatch .arithOp .comma (.register 2)⟩]⟩ := by
  intro wrong text
  have mismatched :
      ∃ diagnostic ∈ (validate wrong).diagnostics,
        diagnostic.error.found ≠ .eof :=
    ⟨⟨1, .mismatch .arithOp .comma (.register 2)⟩, by decide +kernel,
      nofun⟩
  have small : (text "nop = ;").toList.count '\n' ≤ 2 ^ 32 - 3 := by
    decide +kernel
  obtain ⟨same, -⟩ :=
    @validate_behind_mismatch "nop\n" wrong "nop = ;" "// as above"
      "output 7" (.inr ⟨"nop", rfl⟩) (by decide) (by decide) (by decide)
      mismatched small
  exact ⟨mismatched, small, same, by decide +kernel⟩

end Iloc
