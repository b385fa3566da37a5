import Iloc.Proofs.CommandLine.Arguments
import Iloc.Proofs.CommandLine.StandardError

namespace Iloc

/-!
# What a run tells

The exit code, the standard output and the standard error of a run are made
separately, and they tell one story.  The lines on standard error that do not
belong to the log are the diagnostics of the text, one line each; the summary
counts these lines; the exit code is zero if there are none; and only then is a
program dumped.
-/

/-- The events that do not belong to the log are the diagnostics. -/
theorem Event.filter_isNone
    (events : List Event) :
    events.filter (·.level?.isNone) =
      (events.filterMap Event.diagnostic?).map Event.report := by
  induction events with
  | nil =>
      rfl
  | cons event events inductionHypothesis =>
      cases event with
      | log record => exact inductionHypothesis
      | report diagnostic =>
          exact congrArg (List.cons (.report diagnostic)) inductionHypothesis

theorem Validation.isSuccess_report_iff
    (validation : Validation) :
    validation.report.isSuccess = true ↔ validation.diagnostics = #[] := by
  rw [isSuccess_report, isSuccess, Array.isEmpty_iff]

/-- A text of one whole line. -/
theorem Text.unlines_singleton
    (line : String) :
    unlines [line] = line ++ "\n" := by
  simp [unlines, String.join]

namespace CommandLine

namespace Outcome

/-- The outcome of a run that cannot read its file. -/
structure Fails
    (outcome : Outcome)
    (error : ReadError) :
    Prop where
  exitCode : outcome.exitCode = 2
  stdout : outcome.stdout = ""
  toldLines : outcome.toldLines = error.message.splitOn "\n"
  /-- The message is one line, unless the name of the file is not. -/
  single :
    '\n' ∉ error.message.toList → outcome.toldLines = [error.message]

/-- The outcome of a run that lists the tokens of a text. -/
structure Lists
    (outcome : Outcome)
    (source : String) :
    Prop where
  exitCode : outcome.exitCode = 0
  stdout : outcome.stdout = tokenListing (scan source)
  toldLines : outcome.toldLines = []

/-- The outcome of a run that parses a text, and then may dump the program. -/
structure Judges
    (outcome : Outcome)
    (source dumped : String) :
    Prop where
  exitCode :
    outcome.exitCode = if (validate source).diagnostics = #[] then 0 else 1
  toldLines :
    outcome.toldLines =
      (validate source).diagnostics.toList.map Diagnostic.text
  stdout :
    outcome.stdout =
      if (validate source).diagnostics = #[] then
        s!"Parse succeeded: {(validate source).program.size} " ++
          "operations parsed successfully" ++ "\n" ++ dumped
      else
        s!"Parse found errors on {outcome.toldLines.length} lines" ++ "\n"

end Outcome

variable {options : Options} {source : String}

/-- A diagnostic of a text takes up one line. -/
theorem splitOn_text_of_mem
    {mode : Mode}
    {diagnostic : Diagnostic}
    (member :
      diagnostic ∈
        (happenings mode source).filterMap Event.diagnostic?) :
    diagnostic.text.splitOn "\n" = [diagnostic.text] := by
  obtain ⟨event, happened, reported⟩ := List.mem_filterMap.mp member
  have arises := arises_of_mem_happenings happened
  cases event with
  | log record => cases reported
  | report _ =>
      cases reported
      exact (Diagnostic.oneLine_text arises).splitOn

/-- The choice of a mode is only told to the log. -/
theorem filter_records
    (options : Options) :
    (options.modes.records.map fun record =>
        Notice.event (.log record)).filter (·.level?.isNone) =
      [] := by
  rw [List.filter_eq_nil_iff]
  intro notice member
  obtain ⟨record, -, rfl⟩ := List.mem_map.mp member
  exact Bool.false_ne_true

/-- Of what happens in a run, the diagnostics are told. -/
theorem toldLines_unabridged :
    (unabridged options (.ok source)).toldLines =
      ((happenings options.modes.mode source).filterMap
        Event.diagnostic?).map Diagnostic.text := by
  have told :
      ((happenings options.modes.mode source).map Notice.event).filter
          (·.level?.isNone) =
        ((happenings options.modes.mode source).filterMap
          Event.diagnostic?).map fun diagnostic =>
            .event (.report diagnostic) := by
    rw [List.filter_map]
    exact
      (congrArg (List.map Notice.event) (Event.filter_isNone _)).trans
        List.map_map
  rw [Outcome.toldLines_eq, stderr_unabridged, notices,
    List.filter_append, filter_records, told, List.nil_append,
    List.flatMap_map, List.map_eq_flatMap]
  exact List.flatMap_congr fun _ member => splitOn_text_of_mem member

/-- A failure to read the file is all that is told. -/
theorem fails_run
    (verbosity : Verbosity)
    (options : Options)
    (error : ReadError) :
    (run verbosity options (.error error)).Fails error := by
  have lines :
      (run verbosity options (.error error)).toldLines =
        error.message.splitOn "\n" := by
    rw [run_eq_shownAt, Outcome.toldLines_shownAt, Outcome.toldLines_eq,
      stderr_unabridged, notices, List.filter_append, filter_records]
    exact List.append_nil _
  refine ⟨rfl, rfl, lines, ?_⟩
  intro inline
  rw [lines, Text.splitOn_of_lineFeed_notMem inline]

/-- A listing of tokens tells nothing but the tokens. -/
theorem lists_run
    (verbosity : Verbosity)
    (listing : options.modes.mode = .scan) :
    (run verbosity options (.ok source)).Lists source := by
  have silent :
      (happenings .scan source).filterMap Event.diagnostic? = [] := by
    rw [List.filterMap_eq_nil_iff]
    intro event member
    obtain ⟨token, -, rfl⟩ := List.mem_map.mp member
    rfl
  rw [run_eq_shownAt]
  refine ⟨?_, ?_, ?_⟩
  · rw [Outcome.shownAt, unabridged, listing]
  · rw [Outcome.shownAt, unabridged, listing]
  · rw [Outcome.toldLines_shownAt, toldLines_unabridged, listing, silent,
      List.map_nil]

/-- What is told and dumped of a parse in the mode of its options. -/
theorem unabridged_of_parsing
    (parsing : options.modes.mode ≠ .scan) :
    unabridged options (.ok source) =
      let report := (validate source).report
      ⟨verdict report, reportText options report,
        notices options (.ok source)⟩ := by
  rw [unabridged.eq_def]
  dsimp only
  split
  · contradiction
  · rfl

/-- What a parse writes about a text and its program. -/
theorem reportText_report
    (validation : Validation) :
    reportText options validation.report =
      if validation.diagnostics = #[] then
        s!"Parse succeeded: {validation.program.size} " ++
            "operations parsed successfully" ++ "\n" ++
          if options.modes.mode = .dump then
            dumpText options.plain validation.program
          else
            ""
      else
        s!"Parse found errors on {validation.diagnostics.size} lines" ++
          "\n" := by
  have success := validation.isSuccess_report_iff
  rw [reportText, Text.unlines_singleton, Report.summary]
  by_cases accepted : validation.diagnostics = #[]
  · have isSuccess := success.mpr accepted
    simp only [isSuccess, accepted, and_true, if_true]
    rfl
  · have isFailure : validation.report.isSuccess = false :=
      Bool.eq_false_iff.mpr (mt success.mp accepted)
    simp only [isFailure, accepted, Bool.false_eq_true, and_false,
      if_false, String.append_empty]
    rfl

/-- A parse tells its verdict in three ways that agree. -/
theorem judges_run
    (verbosity : Verbosity)
    (parsing : options.modes.mode ≠ .scan) :
    (run verbosity options (.ok source)).Judges source
      (if options.modes.mode = .dump then
        dumpText options.plain (validate source).program
      else
        "") := by
  have told :
      (run verbosity options (.ok source)).toldLines =
        (validate source).diagnostics.toList.map Diagnostic.text := by
    rw [run_eq_shownAt, Outcome.toldLines_shownAt, toldLines_unabridged,
      toList_diagnostics_validate]
    cases mode : options.modes.mode with
    | scan => contradiction
    | parse => rfl
    | dump => rfl
  refine ⟨?_, told, ?_⟩
  · rw [run_eq_shownAt, unabridged_of_parsing parsing]
    exact if_congr (Validation.isSuccess_report_iff _) rfl rfl
  · rw [told, List.length_map, Array.length_toList, run_eq_shownAt,
      unabridged_of_parsing parsing]
    exact reportText_report _

theorem dumpText_eq
    (plain : Bool)
    (program : Program) :
    dumpText plain program =
      if plain then program.plainDump else program.tableDump ++ "\n" := by
  rw [dumpText, Text.unlines_singleton]

/--
What a run tells, for all arguments that are accepted and whatever reading the
file gives.

The flags are set that the arguments give, by themselves or in a group, and the
file is the one argument that is no flag.

If the file cannot be read, the run says so and does nothing else.  Otherwise
the flags select what it does: `-r` before `-p`, `-p` before `-s`, and parsing
without any of them.  The diagnostics of a parse, its summary, its exit code
and the program that may follow agree with each other and with validation.
-/
theorem run_tells_one_story
    {arguments : List String}
    {options : Options}
    (accepted : Options.ofArguments arguments = .ok options)
    (read : String → Except ReadError String) :
    let flags := givenFlags arguments
    (options.modes.scan = true ↔ "-s" ∈ flags) ∧
      (options.modes.parse = true ↔ "-p" ∈ flags) ∧
      (options.modes.dump = true ↔ "-r" ∈ flags) ∧
      (options.plain = true ↔ "--plain" ∈ flags) ∧
      givenFiles arguments = [options.file] ∧
      ∃ outcome,
        respond (.ofSetting none) read arguments = .ok outcome ∧
          match read options.file with
          | .error error => outcome.Fails error
          | .ok source =>
              let program := (validate source).program
              if options.modes.dump then
                outcome.Judges source
                  (if options.plain then
                    program.plainDump
                  else
                    program.tableDump ++ "\n")
              else if options.modes.parse then
                outcome.Judges source ""
              else if options.modes.scan then
                outcome.Lists source
              else
                outcome.Judges source "" := by
  have readFrom := Options.readFrom_of_ofArguments accepted
  refine
    ⟨readFrom.scan, readFrom.parse, readFrom.dump, readFrom.plain,
      readFrom.file,
      run (.ofSetting none) options (read options.file), ?_, ?_⟩
  · rw [respond, accepted]
  cases read options.file with
  | error error =>
      exact fails_run _ options error
  | ok source =>
      have judges :=
        @judges_run options source (.ofSetting none)
      have selected : options.modes.mode = _ := ModeFlags.mode.eq_1 _
      dsimp only
      split
      · rename_i dump
        rw [if_pos dump] at selected
        rw [selected, if_pos rfl, dumpText_eq] at judges
        exact judges nofun
      split
      · rename_i noDump parse
        rw [if_neg noDump, if_pos parse] at selected
        rw [selected] at judges
        exact judges nofun
      split
      · rename_i noDump noParse scan
        rw [if_neg noDump, if_neg noParse, if_pos scan] at selected
        exact lists_run _ selected
      · rename_i noDump noParse noScan
        rw [if_neg noDump, if_neg noParse, if_neg noScan] at selected
        rw [selected] at judges
        exact judges nofun

/-- A program that is dumped in plain lines. -/
theorem run_tells_one_story_plain :
    let arguments := ["-r", "--plain", "first.i"]
    let options : Options := ⟨⟨false, false, true⟩, true, "first.i"⟩
    Options.ofArguments arguments = .ok options ∧
      "-r" ∈ givenFlags arguments ∧
      "--plain" ∈ givenFlags arguments ∧
      ∃ outcome,
        respond (.ofSetting none) (fun _ => .ok "nop\noutput 7")
            arguments =
          .ok outcome ∧
        outcome.Judges "nop\noutput 7" "nop - - -\noutput 7 - -\n" := by
  intro arguments options
  have accepted : Options.ofArguments arguments = .ok options := by
    rfl
  have dumped :
      (validate "nop\noutput 7").program.plainDump =
        "nop - - -\noutput 7 - -\n" := by
    decide +kernel
  obtain ⟨-, -, dump, plain, -, told⟩ :=
    run_tells_one_story accepted fun _ => .ok "nop\noutput 7"
  rw [← dumped]
  exact ⟨accepted, dump.mp rfl, plain.mp rfl, told⟩

end CommandLine

end Iloc
