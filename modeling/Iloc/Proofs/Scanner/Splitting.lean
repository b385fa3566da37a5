import Iloc.Proofs.Scanner.LineNumbers
import Iloc.Proofs.Scanner.Numbering
import Mathlib.Data.List.Infix

namespace Iloc

/-!
# Scanning line by line

Nothing but the line number outlives a line feed.  A text with a line feed and
another text behind it has the tokens of the one, a token for the line feed
unless a comment takes it, and the tokens of the other further down.

So the tokens on a line are those of the line scanned alone, and one more token
that ends it.  No other line of the text has any part in them.
-/

namespace Text

/-- A line is all before its comment exactly if it has no two slashes. -/
theorem uncommented_eq_self_iff
    {line : List Char} :
    uncommented line = line ↔ ¬ ['/', '/'] <:+: line := by
  constructor
  · rintro whole ⟨before, after, split⟩
    apply uncommented_ne_append line before after
    rw [whole, ← split]
    simp
  · intro noSlashes
    rcases uncommented_cases line with whole | ⟨comment, split⟩
    · exact whole
    · refine absurd ⟨uncommented line, comment, ?_⟩ noSlashes
      rw [List.append_assoc]
      exact split.symm

/-- A line feed behind a line is a token unless the line has two slashes. -/
theorem joint_eq_ite
    (line : List Char) :
    joint line = if ['/', '/'] <:+: line then [] else [.newLine] := by
  rw [joint]
  by_cases slashes : ['/', '/'] <:+: line
  · rw [if_pos slashes, if_neg]
    exact fun whole => uncommented_eq_self_iff.mp whole slashes
  · rw [if_neg slashes, if_pos (uncommented_eq_self_iff.mpr slashes)]

/--
The tokens on one line of a text: those of the line scanned alone, and what ends
the line.  In the last line that is the end of the text, and elsewhere a line
feed that no comment takes.
-/
def lineTokens
    (line : List Char)
    (number : UInt32)
    (isLast : Bool) :
    List Token :=
  let alone := ((scan (String.ofList line)).map (·.kind)).dropLast
  let ending :=
    if isLast then
      [.eof]
    else if ['/', '/'] <:+: line then
      []
    else
      [.newLine]
  (alone ++ ending).map (⟨·, number⟩)

theorem lineTokens_eq
    (line : List Char)
    (number : UInt32)
    (isLast : Bool) :
    lineTokens line number isLast =
      (innerKinds line ++
        if isLast then [.eof] else joint line).map (⟨·, number⟩) := by
  rw [lineTokens, ← kinds_toList, String.toList_ofList, joint_eq_ite]
  rfl

/-- With its joint every line ends in one token that ends the line. -/
theorem innerKinds_append_joint
    {line : List Char}
    (inline : '\n' ∉ line) :
    innerKinds line ++ joint line =
      innerKinds (uncommented line) ++ [lineEnd line] := by
  rw [innerKinds_line inline, joint, lineEnd]
  split
  · simp
  · simp

end Text

/-- Tokens inside a line stand on one line, whatever follows them. -/
theorem numberKinds_append_of_inner
    {kinds : List TokenKind}
    (inner : ∀ kind ∈ kinds, kind.isLineEnd = false)
    (number : UInt32)
    (later : List TokenKind) :
    numberKinds number (kinds ++ later) =
      kinds.map (⟨·, number⟩) ++ numberKinds number later := by
  induction kinds with
  | nil =>
      rfl
  | cons kind rest inductionHypothesis =>
      obtain ⟨first, others⟩ := List.forall_mem_cons.mp inner
      have noLine : kind.beginsLine = false := by
        cases kind with
        | newLine => cases first
        | comment => cases first
        | _ => rfl
      rw [List.cons_append, numberKinds, noLine, if_neg (by simp),
        UInt32.add_zero, inductionHypothesis others]
      rfl

namespace Text

/-- All tokens of a line stand on it, the one that ends it included. -/
theorem numberKinds_line_joint
    {line : List Char}
    (inline : '\n' ∉ line)
    (number : UInt32) :
    numberKinds number (innerKinds line ++ joint line) =
      lineTokens line number false := by
  rw [lineTokens_eq, if_neg (by simp), innerKinds_append_joint inline,
    numberKinds_append_of_inner (isLineEnd_of_mem_innerKinds inline),
    List.map_append]
  rfl

/-- The tokens of the last line stand on it, the end included. -/
theorem numberKinds_lastLine
    {line : List Char}
    (inline : '\n' ∉ line)
    (number : UInt32) :
    numberKinds number (innerKinds line) ++ [⟨.eof, number⟩] =
      lineTokens line number true := by
  have inner := isLineEnd_of_mem_innerKinds inline
  rw [lineTokens_eq, if_pos rfl, innerKinds_line inline,
    numberKinds_append_of_inner inner, List.map_append, List.map_append]
  split
  · rfl
  · rfl

/-- The tokens of a text are those of its lines, one after the other. -/
theorem numberKinds_eq_flatMap
    (characters : List Char)
    (number : Nat) :
    let lines := characters.splitOn '\n'
    numberKinds (UInt32.ofNat number) (innerKinds characters) ++
        [⟨.eof, UInt32.ofNat (number + characters.count '\n')⟩] =
      (lines.zipIdx number).flatMap fun item =>
        lineTokens item.1 (UInt32.ofNat item.2)
          (item.2 + 1 = number + lines.length) := by
  induction characters using induction_lines generalizing number with
  | lastLine line inline =>
      intro lines
      have single : lines = [line] := List.splitOn_eq_singleton inline
      rw [single, List.zipIdx_singleton, List.flatMap_singleton,
        List.count_eq_zero_of_not_mem inline]
      simp only [List.length_singleton, decide_true]
      exact numberKinds_lastLine inline (UInt32.ofNat number)
  | append line rest inline inductionHypothesis =>
      intro lines
      have split : lines = line :: rest.splitOn '\n' :=
        List.splitOn_append_cons_self_of_not_mem inline rest
      have total :
          number + lines.length =
            number + 1 + (rest.splitOn '\n').length := by
        rw [split, List.length_cons]
        omega
      have goesOn :
          ¬ number + 1 = number + 1 + (rest.splitOn '\n').length := by
        have nonempty :=
          List.length_pos_iff.mpr (rest.splitOn_ne_nil '\n')
        omega
      have one :
          (innerKinds line ++ joint line).countP TokenKind.beginsLine =
            1 := by
        have counted := countP_beginsLine_innerKinds line
        rw [lastLine_of_inline inline,
          List.count_eq_zero_of_not_mem inline] at counted
        rw [List.countP_append, counted]
      have feeds :
          number + (line ++ '\n' :: rest).count '\n' =
            number + 1 + rest.count '\n' := by
        rw [List.count_append, List.count_cons_self,
          List.count_eq_zero_of_not_mem inline]
        omega
      rw [innerKinds_line_joint inline, numberKinds_append, one,
        numberKinds_line_joint inline, feeds, ← UInt32.ofNat_add,
        List.append_assoc, inductionHypothesis (number + 1), total, split,
        List.zipIdx_cons, List.flatMap_cons]
      simp only [goesOn, decide_false]

theorem line_of_mem_lineTokens
    {line : List Char}
    {number : UInt32}
    {isLast : Bool} :
    ∀ token ∈ lineTokens line number isLast, token.line = number := by
  intro token member
  obtain ⟨kind, -, rfl⟩ := List.mem_map.mp member
  rfl

end Text

/-- Of tokens in numbered groups, those with a number are those of its group. -/
theorem filter_line_flatMap_zipIdx
    {α : Type}
    {group : α × Nat → List Token}
    {items : List α}
    {start : Nat}
    (numbers :
      ∀ item ∈ items.zipIdx start,
        ∀ token ∈ group item, token.line.toNat = item.2)
    {item : α × Nat}
    (member : item ∈ items.zipIdx start) :
    ((items.zipIdx start).flatMap group).filter
        (·.line.toNat = item.2) =
      group item := by
  induction items generalizing start with
  | nil =>
      cases member
  | cons first rest inductionHypothesis =>
      rw [List.zipIdx_cons] at numbers member ⊢
      obtain ⟨firstNumbers, restNumbers⟩ :=
        List.forall_mem_cons.mp numbers
      rw [List.flatMap_cons, List.filter_append]
      rcases List.mem_cons.mp member with rfl | inRest
      · have all :
            (group (first, start)).filter (·.line.toNat = start) =
              group (first, start) := by
          rw [List.filter_eq_self]
          intro token inGroup
          exact decide_eq_true (firstNumbers token inGroup)
        have none :
            ((rest.zipIdx (start + 1)).flatMap group).filter
                (·.line.toNat = start) =
              [] := by
          rw [List.filter_eq_nil_iff]
          intro token inRest
          obtain ⟨other, isOther, inGroup⟩ := List.mem_flatMap.mp inRest
          have below := List.le_snd_of_mem_zipIdx isOther
          rw [restNumbers other isOther token inGroup, decide_eq_true_eq]
          omega
        rw [all, none, List.append_nil]
      · have below := List.le_snd_of_mem_zipIdx inRest
        have none :
            (group (first, start)).filter (·.line.toNat = item.2) =
              [] := by
          rw [List.filter_eq_nil_iff]
          intro token inGroup
          rw [firstNumbers token inGroup, decide_eq_true_eq]
          dsimp only
          omega
        rw [none, List.nil_append, inductionHypothesis restNumbers inRest]

/-- The tokens of a text, line by line. -/
theorem scan_eq_flatMap
    (source : String) :
    let lines := source.toList.splitOn '\n'
    scan source =
      (lines.zipIdx 1).flatMap fun item =>
        Text.lineTokens item.1 (UInt32.ofNat item.2)
          (item.2 = lines.length) := by
  intro lines
  have byLines := Text.numberKinds_eq_flatMap source.toList 1
  rw [UInt32.ofNat_add] at byLines
  simp only [Nat.add_comm 1, Nat.add_right_cancel_iff] at byLines
  rw [scan_eq_numberKinds]
  exact byLines

/-- The tokens on a line of a text are those of the line. -/
theorem filter_line_scan
    {source : String}
    (small : source.toList.count '\n' + 3 ≤ UInt32.size)
    {line : List Char}
    {number : Nat}
    (member : (line, number) ∈ (source.toList.splitOn '\n').zipIdx 1) :
    (scan source).filter (·.line.toNat = number) =
      Text.lineTokens line (UInt32.ofNat number)
        (number = (source.toList.splitOn '\n').length) := by
  rw [scan_eq_flatMap]
  refine filter_line_flatMap_zipIdx ?_ member
  intro item isLine token inLine
  have bounded := List.snd_lt_add_of_mem_zipIdx isLine
  rw [Text.length_splitOn_lineFeed] at bounded
  rw [Text.line_of_mem_lineTokens token inLine]
  exact UInt32.toNat_ofNat_of_lt (by omega)

/-- The end of a text stands on its last line, and only tokens precede it. -/
theorem scan_eq_dropLast_append
    (source : String) :
    scan source =
      (scan source).dropLast ++
        [⟨.eof, UInt32.ofNat (source.toList.count '\n' + 1)⟩] := by
  have last :
      UInt32.ofNat (source.toList.count '\n' + 1) =
        1 + UInt32.ofNat (source.toList.count '\n') := by
    rw [Nat.add_comm, UInt32.ofNat_add]
    rfl
  rw [scan_eq_numberKinds, List.dropLast_concat, last]

/-- No token that is moved down wraps around, where the lines are few enough. -/
theorem Token.toNat_line_shift
    {source : String}
    {lines : Nat}
    (small : source.toList.count '\n' + lines + 3 ≤ UInt32.size) :
    ∀ token ∈ scan source,
      (token.shift (UInt32.ofNat lines)).line.toNat =
        token.line.toNat + lines := by
  intro token member
  have bounded := toNat_line_le_of_mem_scan (by omega) member
  have exactLines : (UInt32.ofNat lines).toNat = lines :=
    UInt32.toNat_ofNat_of_lt (by omega)
  rw [Token.shift, UInt32.toNat_add, exactLines]
  apply Nat.mod_eq_of_lt
  show token.line.toNat + lines < UInt32.size
  omega

/--
A text is scanned up to a line feed as if it ended there, and behind the line
feed as if it began there, except that its lines are numbered on.  Between the
two stands a token for the line feed, unless the line before it has a comment.

So the tokens on a line are told by the line, by its number, and by whether it
is the last one.  They do not depend on any other line.
-/
theorem scan_splits_at_lineFeed
    (first second : String)
    (small :
      (first ++ "\n" ++ second).toList.count '\n' ≤ 2 ^ 32 - 3) :
    let joined := first ++ "\n" ++ second
    let lines := joined.toList.splitOn '\n'
    let number := first.toList.count '\n' + 1
    let ending : List Token :=
      if ['/', '/'] <:+: Text.lastLine first.toList then
        []
      else
        [⟨.newLine, UInt32.ofNat number⟩]
    scan joined =
        (scan first).dropLast ++ ending ++
          (scan second).map (Token.shift (UInt32.ofNat number)) ∧
      scan first =
        (scan first).dropLast ++ [⟨.eof, UInt32.ofNat number⟩] ∧
      (UInt32.ofNat number).toNat = number ∧
      (∀ token ∈ scan second,
        (token.shift (UInt32.ofNat number)).line.toNat =
          token.line.toNat + number) ∧
      ∀ line place,
        (line, place) ∈ lines.zipIdx 1 →
          (scan joined).filter (·.line.toNat = place) =
            Text.lineTokens line (UInt32.ofNat place)
              (place = lines.length) := by
  intro joined lines number ending
  have size : UInt32.size = 2 ^ 32 := rfl
  have counted :
      joined.toList.count '\n' =
        second.toList.count '\n' + number := by
    simp only [joined, number, String.toList_append, List.count_append]
    rw [show "\n".toList.count '\n' = 1 from by decide]
    omega
  have noWrap : joined.toList.count '\n' + 3 ≤ UInt32.size := by
    dsimp only [joined]
    omega
  have sameEnding :
      (Text.joint (Text.lastLine first.toList)).map
          (Token.mk · (1 + UInt32.ofNat (first.toList.count '\n'))) =
        ending := by
    have sameNumber :
        1 + UInt32.ofNat (first.toList.count '\n') =
          UInt32.ofNat number := by
      rw [UInt32.add_comm]
      exact (UInt32.ofNat_add _ _).symm
    rw [Text.joint_eq_ite, sameNumber]
    dsimp only [ending]
    split
    · rfl
    · rfl
  refine ⟨?_, scan_eq_dropLast_append first,
    UInt32.toNat_ofNat_of_lt (by omega),
    Token.toNat_line_shift (by omega), ?_⟩
  · rw [← sameEnding]
    exact scan_append_lineFeed first second
  · intro line place member
    exact filter_line_scan noWrap member

/--
A text that ends in half an arrow, and one that ends in a comment, which takes
the line feed.
-/
theorem scan_splits_at_lineFeed_arrow :
    let joined := "nop // one\nr1 =" ++ "\n" ++ "> // two\n7"
    joined.toList.count '\n' ≤ 2 ^ 32 - 3 ∧
      scan "nop // one\nr1 =" =
        [⟨.opcode .nop, 1⟩, ⟨.comment, 1⟩, ⟨.register 1, 2⟩,
          ⟨.error .incompleteArrow, 2⟩, ⟨.eof, 2⟩] ∧
      scan joined =
        [⟨.opcode .nop, 1⟩, ⟨.comment, 1⟩, ⟨.register 1, 2⟩,
            ⟨.error .incompleteArrow, 2⟩, ⟨.newLine, 2⟩] ++
          (scan "> // two\n7").map (Token.shift 2) ∧
      (scan joined).filter (·.line.toNat = 3) =
        Text.lineTokens "> // two".toList 3 false := by
  intro joined
  have small : joined.toList.count '\n' ≤ 2 ^ 32 - 3 := by
    decide
  have tokens :
      scan "nop // one\nr1 =" =
        [⟨.opcode .nop, 1⟩, ⟨.comment, 1⟩, ⟨.register 1, 2⟩,
          ⟨.error .incompleteArrow, 2⟩, ⟨.eof, 2⟩] := by
    decide +kernel
  obtain ⟨split, -, -, -, onLine⟩ :=
    scan_splits_at_lineFeed "nop // one\nr1 =" "> // two\n7" small
  rw [tokens] at split
  exact ⟨small, tokens, split.trans (by decide +kernel),
    onLine "> // two".toList 3 (by decide +kernel)⟩

end Iloc
