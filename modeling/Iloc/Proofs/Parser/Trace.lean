import Iloc.Proofs.Parser.LoopInvariant
import Iloc.Proofs.Scanner.Numbering

namespace Iloc

/-!
# The trace of a parse

The judgements on the lines of a text fix not only what a parse finds but all
that it makes known, in order.  Lines make themselves known one after the other:
a line that is accepted by its tokens and the instruction, a line that is
rejected by the tokens up to the one in error, the diagnostic, and the tokens
that are discarded.

The parser stops at an end of the text that stands on a line of its own.  If
the end of the text has already ended a statement, it is read once more.  The
totals come last.

Every event is told in words: the log gives it a level, a component and a
message, and a reporter is given a line and a message.  What these are is fixed
by the lines as well.
-/

universe u

/-- How an event is told. -/
inductive Telling where
  /-- By the log, on a level. -/
  | logged (level : Level) (component message : String)
  /-- By the reporter. -/
  | reported (line : Nat) (message : String)
  deriving Repr, DecidableEq

/-- What is told as one line of text. -/
def Telling.text : Telling → String
  | .logged level component message =>
      s!"{level.name} {component}: {message}"
  | .reported line message => s!"REPORT {line}: {message}"

/-- How the log or the reporter tells an event. -/
def Event.telling : Event → Telling
  | .log record => .logged record.level record.component record.message
  | .report diagnostic =>
      .reported diagnostic.line.toNat diagnostic.message

/-- The text of an event is that of how it is told. -/
theorem Event.text_eq
    (event : Event) :
    event.text = event.telling.text := by
  cases event with
  | log record =>
      rfl
  | report diagnostic =>
      simp [text, telling, Telling.text, Diagnostic.text,
        String.append_assoc, toString]

/-- A token is told by the scanner, with the line that it stands on. -/
def Token.telling (token : Token) : Telling :=
  .logged .trace "ilocfe::lex" s!"line {token.line}: {token.kind.text}"

/--
A token of a rejected line is told by the scanner, and then by the parser that
discards it.  The token that ends the line is not said to be skipped.
-/
def Token.tellingsDiscarded (number : Nat) (token : Token) : List Telling :=
  if token.kind.isLineEnd then
    [token.telling]
  else
    [token.telling,
      .logged .debug "ilocfe::parse"
        s!"line {number}: skipping {token.kind.text}"]

namespace TokenLine

/-- What is told while the line with a given number is read. -/
def tellings (line : TokenLine) (number : Nat) : List Telling :=
  match line.judge with
  | .blank => line.tokens.map Token.telling
  | .accepted instruction =>
      let behind :=
        if line.terminator.kind = .eof then number else number + 1
      line.tokens.map Token.telling ++
        [.logged .debug "ilocfe::parse"
          s!"line {behind}: {instruction.text}"]
  | .rejected error read unread =>
      read.map Token.telling ++
        .reported number error.message ::
          unread.flatMap (Token.tellingsDiscarded number)

/-- All that is told during a parse of some lines. -/
def traceTellings (lines : List TokenLine) : List Telling :=
  let accepted := (program lines).size
  let rejected := (diagnostics lines).size
  ((lines.zipIdx 1).flatMap fun (line, number) => line.tellings number) ++
    (lines.getLast?.bind leftOver?).toList.map Token.telling ++
      [.logged .info "ilocfe::parse"
        s!"parsed {accepted} instructions, {rejected} lines rejected"]

/-- All events of a parse of some lines. -/
def trace (lines : List TokenLine) : List Event :=
  eventsFrom 1 lines ++
    (lines.getLast?.bind leftOver?).toList.map Token.scanned ++
      [.log (.finished (program lines).size (diagnostics lines).size)]

/-- A line in its place among the lines of a text, the first of which is one. -/
structure InPlace
    (lines : List TokenLine)
    (line : TokenLine)
    (number : Nat) :
    Prop where
  /-- The number of the line fits into 32 bits. -/
  exactNumber : (UInt32.ofNat number).toNat = number
  /-- So does the number that an instruction of the line is committed with. -/
  numberBehind :
    (line.numberBehind (UInt32.ofNat number)).toNat =
      if line.terminator.kind = .eof then number else number + 1
  /-- The end of the text ends the last line and no other. -/
  isLast : line.terminator.kind = .eof ↔ number = lines.length
  /-- The tokens of the line carry its number. -/
  onLine :
    ∀ token ∈ line.tokens,
      token.kind ≠ .eof → token.line.toNat = number
  /-- A line that holds nothing is neither accepted nor rejected. -/
  blank : line.judge = .blank ↔ line.body = []
  /-- If the line is rejected, then it is read up to the token in error. -/
  rejected :
    ∀ error read unread,
      line.judge = .rejected error read unread →
        read ++ unread = line.tokens ∧
          ∃ fitting found, read = fitting ++ [found] ∧
            error.found = found.kind

end TokenLine

namespace Scanner

variable {scanner : Scanner} {lines : List TokenLine}

/-- The end of a text ends its last line and no other. -/
theorem Turns.isLast_cut
    (turns : scanner.Turns lines)
    (number : Nat) :
    ∀ line place,
      (line, place) ∈ (TokenLine.cut scanner.tokens).zipIdx number →
        (line.terminator.kind = .eof ↔
          place + 1 = number + (TokenLine.cut scanner.tokens).length) := by
  induction turns generalizing number with
  | @last scanner line reads isEnd =>
      rw [reads.cut_eq, if_pos isEnd.2]
      intro other place member
      rw [List.zipIdx_singleton, List.mem_singleton] at member
      obtain ⟨rfl, rfl⟩ := Prod.mk.inj member
      exact iff_of_true isEnd.2 rfl
  | @turn scanner line lines reads goesOn later inductionHypothesis =>
      rw [reads.cut_eq]
      intro other place member
      by_cases atEnd : line.terminator.kind = .eof
      · rw [if_pos atEnd] at member ⊢
        rw [List.zipIdx_singleton, List.mem_singleton] at member
        obtain ⟨rfl, rfl⟩ := Prod.mk.inj member
        exact iff_of_true atEnd rfl
      · obtain ⟨next, rest, restCut⟩ :=
          TokenLine.exists_cons_cut (scanner.skip line.tokens)
        rw [if_neg atEnd] at member ⊢
        rw [List.zipIdx_cons, List.mem_cons] at member
        rcases member with isFirst | inRest
        · obtain ⟨rfl, rfl⟩ := Prod.mk.inj isFirst
          refine iff_of_false atEnd ?_
          rw [restCut, List.length_cons, List.length_cons]
          omega
        · rw [inductionHypothesis (number + 1) other place inRest,
            List.length_cons]
          omega

/-- The tokens of a line before the end of the text carry its number. -/
theorem Turns.line_eq_of_mem_cut
    (turns : scanner.Turns lines)
    {number : Nat}
    (numbered :
      scanner.AtEnd ∨ scanner.line = UInt32.ofNat number) :
    ∀ line place,
      (line, place) ∈ (TokenLine.cut scanner.tokens).zipIdx number →
        ∀ token ∈ line.tokens,
          token.kind ≠ .eof → token.line = UInt32.ofNat place := by
  induction turns generalizing number with
  | @last scanner line reads isEnd =>
      rw [reads.cut_eq, if_pos isEnd.2]
      intro other place member token inLine inner
      rw [List.zipIdx_singleton, List.mem_singleton] at member
      obtain ⟨rfl, rfl⟩ := Prod.mk.inj member
      rw [TokenLine.tokens_of_nil isEnd.1, List.mem_singleton] at inLine
      rw [inLine] at inner
      exact absurd isEnd.2 inner
  | @turn scanner line lines reads goesOn later inductionHypothesis =>
      have sameLine : scanner.line = UInt32.ofNat number := by
        rcases numbered with atEnd | same
        · exact absurd (reads.isEnd_of_atEnd atEnd) goesOn
        · exact same
      have first :
          ∀ token ∈ line.tokens, token.line = UInt32.ofNat number := by
        intro token inLine
        rw [reads.numbers token inLine, sameLine]
      rw [reads.cut_eq]
      intro other place member token inLine inner
      by_cases atEnd : line.terminator.kind = .eof
      · rw [if_pos atEnd, List.zipIdx_singleton,
          List.mem_singleton] at member
        obtain ⟨rfl, rfl⟩ := Prod.mk.inj member
        exact first token inLine
      · have behind :
            (scanner.skip line.tokens).AtEnd ∨
              (scanner.skip line.tokens).line =
                UInt32.ofNat (number + 1) := by
          have crosses := reads.crosses
          generalize line.terminator.kind = terminator at atEnd crosses
          cases crosses with
          | eof behindAtEnd unchanged =>
              exact absurd rfl atEnd
          | lineFeed isEnd nextLine used =>
              rw [nextLine, sameLine, UInt32.ofNat_add]
              exact Or.inr rfl
          | openComment behindAtEnd unchanged none =>
              exact Or.inl behindAtEnd
        rw [if_neg atEnd, List.zipIdx_cons, List.mem_cons] at member
        rcases member with isFirst | inRest
        · obtain ⟨rfl, rfl⟩ := Prod.mk.inj isFirst
          exact first token inLine
        · exact
            inductionHypothesis behind other place inRest token inLine
              inner

end Scanner

variable {source : String}

/-- The lines of a text are in their places. -/
theorem inPlace_of_mem_cut
    (small : source.toList.count '\n' + 3 ≤ UInt32.size)
    {line : TokenLine}
    {number : Nat}
    (member :
      (line, number) ∈ (TokenLine.cut (scan source)).zipIdx 1) :
    line.InPlace (TokenLine.cut (scan source)) number := by
  obtain ⟨lines, turns⟩ := (Scanner.ofSource source).exists_turns
  have fits := length_cut_scan_lt small
  have notBeyond := List.snd_lt_add_of_mem_zipIdx member
  have exactNumber : (UInt32.ofNat number).toNat = number :=
    UInt32.toNat_ofNat_of_lt (by omega)
  have isLast :
      line.terminator.kind = .eof ↔
        number = (TokenLine.cut (scan source)).length := by
    rw [turns.isLast_cut 1 line number member]
    show number + 1 = 1 + (TokenLine.cut (scan source)).length ↔ _
    omega
  refine ⟨exactNumber, ?_, isLast, ?_, line.judge_eq_blank_iff, ?_⟩
  · rw [TokenLine.numberBehind]
    by_cases atEnd : line.terminator.kind = .eof
    · rw [if_pos atEnd, if_pos atEnd, exactNumber]
    · have earlier := mt isLast.mpr atEnd
      rw [if_neg atEnd, if_neg atEnd, UInt32.toNat_add, exactNumber]
      apply Nat.mod_eq_of_lt
      have size : UInt32.size = 2 ^ 32 := rfl
      show number + 1 < 2 ^ 32
      omega
  · intro token inLine inner
    rw [turns.line_eq_of_mem_cut (Or.inr rfl) line number member token
      inLine inner, exactNumber]
  · intro error read unread rejected
    exact TokenLine.rejected_split rejected

theorem Token.map_telling_discarded
    (number : UInt32)
    (token : Token) :
    (token.discarded number).map Event.telling =
      token.tellingsDiscarded number.toNat := by
  rw [discarded, tellingsDiscarded]
  split <;> rfl

/-- The events of a line in its place are told with the number of the place. -/
theorem TokenLine.InPlace.map_telling
    {lines : List TokenLine}
    {line : TokenLine}
    {number : Nat}
    (inPlace : line.InPlace lines number) :
    (line.events (UInt32.ofNat number)).map Event.telling =
      line.tellings number := by
  have exactNumber := inPlace.exactNumber
  have scanned (tokens : List Token) :
      (tokens.map Token.scanned).map Event.telling =
        tokens.map Token.telling :=
    List.map_map
  cases judged : line.judge with
  | blank =>
      rw [events, tellings, judged]
      exact scanned line.tokens
  | accepted instruction =>
      rw [events, tellings, judged]
      dsimp only
      rw [List.map_append, scanned, ← inPlace.numberBehind]
      rfl
  | rejected error read unread =>
      have discarded :
          (unread.flatMap
              (Token.discarded (UInt32.ofNat number))).map
                Event.telling =
            unread.flatMap (Token.tellingsDiscarded number) := by
        rw [List.map_flatMap]
        refine List.flatMap_congr fun token _ => ?_
        rw [token.map_telling_discarded, exactNumber]
      rw [events, tellings, judged]
      dsimp only
      rw [List.map_append, scanned, List.map_cons, discarded,
        Event.telling, exactNumber]
      rfl

/-- What is told during a parse of a text is fixed by its lines. -/
theorem map_telling_trace
    (small : source.toList.count '\n' + 3 ≤ UInt32.size) :
    let lines := TokenLine.cut (scan source)
    (TokenLine.trace lines).map Event.telling =
      TokenLine.traceTellings lines := by
  intro lines
  rw [TokenLine.trace, TokenLine.traceTellings, List.map_append,
    List.map_append, TokenLine.eventsFrom, List.map_flatMap]
  refine congrArg₂ (· ++ ·) (congrArg₂ (· ++ ·) ?_ List.map_map) rfl
  refine List.flatMap_congr ?_
  rintro ⟨line, number⟩ member
  exact (inPlace_of_mem_cut small member).map_telling

/-- The end of a text stands below all of its line feeds. -/
theorem toNat_line_of_eof
    (small : source.toList.count '\n' + 3 ≤ UInt32.size) :
    ∀ token ∈ scan source, token.kind = .eof →
      token.line.toNat = 1 + source.toList.count '\n' := by
  intro token member isEnd
  rw [scan_eq_numberKinds, List.mem_append] at member
  rcases member with inner | isLast
  · exact
      absurd isEnd
        (Text.kind_ne_eof_of_mem_numberKinds 1 source.toList token inner)
  · rw [List.mem_singleton.mp isLast]
    have size : UInt32.size = 2 ^ 32 := rfl
    have exactFeeds :
        (UInt32.ofNat (source.toList.count '\n')).toNat =
          source.toList.count '\n' :=
      UInt32.toNat_ofNat_of_lt (by omega)
    rw [UInt32.toNat_add, exactFeeds]
    apply Nat.mod_eq_of_lt
    show 1 + source.toList.count '\n' < 2 ^ 32
    omega

/-- The finest verbosity shows every record. -/
theorem Listener.filtered_trace :
    Listener.filtered (.upTo .trace) = Listener.transcript := by
  have same :
      (Listener.filtered (.upTo .trace)).hear =
        Listener.transcript.hear := by
    funext events event
    cases event with
    | log record => cases record <;> rfl
    | report diagnostic => rfl
  exact congrArg Listener.mk same

/-- What a parse returns and makes known, whatever listens to it. -/
theorem parse_eq_trace
    {σ : Type u}
    (small : source.toList.count '\n' + 3 ≤ UInt32.size)
    (listener : Listener σ)
    (sink : σ) :
    let lines := TokenLine.cut (scan source)
    parse listener sink source =
      (⟨TokenLine.program lines, (TokenLine.diagnostics lines).size⟩,
        (TokenLine.trace lines).foldl listener.hear sink) := by
  intro lines
  obtain ⟨turnLines, turns⟩ := (Scanner.ofSource source).exists_turns
  have heard := Parser.sink_parse turns small listener sink
  have events : TokenLine.history 1 turnLines = _ := turns.history_eq 1
  rw [Parser.eventsOf, events] at heard
  exact Prod.ext (report_parse small listener sink) heard

section parse

variable {σ : Type u}

/--
The events of a parse, in order.  Every line makes known what its judgement
says, with its own number; then the end of the text is read once more if it
ended a line that holds anything; then come the totals.  With all levels of the
log on nothing else is shown, and every listener hears the same.

The events are told on the levels and in the words that belong to them: reading
a token on TRACE, committing an instruction and skipping a token on DEBUG, the
totals on INFO, and an error to the reporter, on the line in error.
-/
theorem event_trace
    (source : String)
    (small : source.toList.count '\n' ≤ 2 ^ 32 - 3) :
    let lines := TokenLine.cut (scan source)
    let report : Report :=
      ⟨TokenLine.program lines, (TokenLine.diagnostics lines).size⟩
    let shown := (parse (.filtered (.upTo .trace)) #[] source).2.toList
    parse (.filtered (.upTo .trace)) #[] source =
        (report, (TokenLine.trace lines).toArray) ∧
      shown.map Event.telling = TokenLine.traceTellings lines ∧
      shown.map Event.text =
        (TokenLine.traceTellings lines).map Telling.text ∧
      (∀ (listener : Listener σ) (sink : σ),
        parse listener sink source =
          (report, (TokenLine.trace lines).foldl listener.hear sink)) ∧
      lines.flatMap TokenLine.tokens = scan source ∧
      (∀ line number,
        (line, number) ∈ lines.zipIdx 1 → line.InPlace lines number) ∧
      ∀ token ∈ scan source, token.kind = .eof →
        token.line.toNat = 1 + source.toList.count '\n' := by
  have noWrap : source.toList.count '\n' + 3 ≤ UInt32.size := by
    have size : UInt32.size = 2 ^ 32 := rfl
    omega
  intro lines report shown
  have parsed :
      parse (.filtered (.upTo .trace)) #[] source =
        (report, (TokenLine.trace lines).toArray) := by
    rw [Listener.filtered_trace, parse_eq_trace noWrap,
      Parser.foldl_transcript]
  have isTrace : shown = TokenLine.trace lines :=
    congrArg (·.2.toList) parsed
  have told : shown.map Event.telling = TokenLine.traceTellings lines := by
    rw [isTrace]
    exact map_telling_trace noWrap
  refine ⟨parsed, told, ?_,
    fun listener sink => parse_eq_trace noWrap listener sink,
    TokenLine.flatMap_tokens_cut _, ?_, toNat_line_of_eof noWrap⟩
  · rw [← told, List.map_map]
    exact List.map_congr_left fun event _ => event.text_eq
  · intro line number member
    exact inPlace_of_mem_cut noWrap member

/--
A text with a line in error at its end, an accepted line that ends in a comment,
and a line that is discarded up to the end of the text.
-/
theorem event_trace_mixed :
    let source := "add r1\nnop // done\nfoo 7"
    let parsed := parse (.filtered (.upTo .trace)) #[] source
    source.toList.count '\n' ≤ 2 ^ 32 - 3 ∧
      parsed =
        (⟨#[.nop], 2⟩,
          #[.log (.scanned ⟨.opcode (.arith .add), 1⟩),
            .log (.scanned ⟨.register 1, 1⟩),
            .log (.scanned ⟨.newLine, 1⟩),
            .report ⟨1, .mismatch .arithOp .comma .newLine⟩,
            .log (.scanned ⟨.opcode .nop, 2⟩),
            .log (.scanned ⟨.comment, 2⟩),
            .log (.committed 3 .nop),
            .log (.scanned ⟨.error .unknownWord, 3⟩),
            .report ⟨3, .notAnOpcode (.error .unknownWord)⟩,
            .log (.scanned ⟨.constant 7, 3⟩),
            .log (.skipped 3 (.constant 7)),
            .log (.scanned ⟨.eof, 3⟩),
            .log (.scanned ⟨.eof, 3⟩),
            .log (.finished 1 2)]) ∧
      parsed.2.toList.map Event.text =
        ["TRACE ilocfe::lex: line 1: ARITHOP add",
          "TRACE ilocfe::lex: line 1: REG r1",
          "TRACE ilocfe::lex: line 1: NEWLINE",
          "REPORT 1: Incorrect ARITHOP syntax: " ++
            "expected COMMA, found NEWLINE",
          "TRACE ilocfe::lex: line 2: NOP nop",
          "TRACE ilocfe::lex: line 2: COMMENT",
          "DEBUG ilocfe::parse: line 3: nop - - -",
          "TRACE ilocfe::lex: line 3: ERROR (unknown word)",
          "REPORT 3: Statement must start with an Opcode, " ++
            "found ERROR (unknown word)",
          "TRACE ilocfe::lex: line 3: CONST 7",
          "DEBUG ilocfe::parse: line 3: skipping CONST 7",
          "TRACE ilocfe::lex: line 3: EOF",
          "TRACE ilocfe::lex: line 3: EOF",
          "INFO ilocfe::parse: parsed 1 instructions, 2 lines rejected"] := by
  intro source parsed
  have small : source.toList.count '\n' ≤ 2 ^ 32 - 3 := by
    decide
  obtain ⟨shown, -, told, -⟩ := @event_trace Unit source small
  exact
    ⟨small, shown.trans (by decide +kernel),
      told.trans (by decide +kernel)⟩

end parse

end Iloc
