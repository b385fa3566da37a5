import Iloc.CommandLine.Outcome
import Iloc.Proofs.Parser.Reporting
import Iloc.Proofs.Parser.Wording

namespace Iloc

/-!
# Standard error

Log records share standard error with diagnostics and failures.  Every line of
it is marked with the level of the record that it belongs to, or with none.

What there is to tell in a run follows from the options and from the file.  A
verbosity makes a selection from it and affects nothing else, so a run comes to
one unabridged outcome of which every verbosity shows its part.
-/

/-- The level of an event, if it belongs to the log. -/
def Event.level? : Event → Option Level
  | .log record => some record.level
  | .report _ => none

/-- Whether a verbosity shows what is told on a level, or on none. -/
def Verbosity.shows
    (verbosity : Verbosity)
    (level? : Option Level) :
    Bool :=
  level?.all verbosity.admits

/-- The finest verbosity shows every level. -/
theorem Verbosity.shows_trace
    (level? : Option Level) :
    (Verbosity.upTo .trace).shows level? = true := by
  rcases level? with _ | _ | _ | _ | _ | _
  all_goals rfl

/-- A filtered listener keeps the events that its verbosity shows. -/
theorem Listener.foldl_filtered
    (verbosity : Verbosity)
    (events : List Event)
    (sink : Array Event) :
    events.foldl (filtered verbosity).hear sink =
      sink ++
        (events.filter fun event =>
          verbosity.shows event.level?).toArray := by
  have hears :
      (filtered verbosity).hear =
        fun sink event =>
          if verbosity.shows event.level? then
            sink.push event
          else
            sink := by
    funext sink event
    cases event <;> rfl
  rw [hears, ← List.foldl_filter, List.foldl_push_eq_append']

namespace CommandLine

namespace Notice

/-- The level of a notice, if it belongs to the log. -/
def level? : Notice → Option Level
  | .event heard => heard.level?
  | .unreadable _ => none

/-- The lines of a notice, each marked with its level. -/
def markedLines (notice : Notice) : List (Option Level × String) :=
  (notice.text.splitOn "\n").map (notice.level?, ·)

end Notice

namespace Outcome

/-- The lines of standard error, each marked with its level. -/
def markedLines (outcome : Outcome) : List (Option Level × String) :=
  outcome.stderr.flatMap Notice.markedLines

/-- The lines of standard error that do not belong to the log. -/
def toldLines (outcome : Outcome) : List String :=
  (outcome.markedLines.filter (·.1.isNone)).map (·.2)

/-- The outcome of the same run, of which a verbosity shows its part. -/
def shownAt
    (verbosity : Verbosity)
    (outcome : Outcome) :
    Outcome :=
  { outcome with
    stderr :=
      outcome.stderr.filter fun notice =>
        verbosity.shows notice.level? }

variable (outcome : Outcome)

/-- Marking the lines leaves them as they are. -/
theorem map_snd_markedLines :
    outcome.markedLines.map (·.2) = outcome.stderrLines := by
  simp [markedLines, stderrLines, Notice.markedLines, List.map_flatMap,
    Function.comp_def]

/-- The finest verbosity withholds nothing. -/
theorem shownAt_trace :
    outcome.shownAt (.upTo .trace) = outcome := by
  rw [shownAt, List.filter_eq_self.mpr]
  intro notice _
  exact Verbosity.shows_trace notice.level?

/-- A selection by level takes all lines of a notice or none. -/
theorem filter_markedLines
    (selects : Option Level → Bool)
    (notices : List Notice) :
    (notices.flatMap Notice.markedLines).filter (selects ·.1) =
      (notices.filter (selects ·.level?)).flatMap Notice.markedLines := by
  induction notices with
  | nil =>
      rfl
  | cons notice notices inductionHypothesis =>
      rw [List.flatMap_cons, List.filter_append, inductionHypothesis,
        List.filter_cons, Notice.markedLines, List.filter_map]
      split <;> rename_i selected <;>
        simp [Notice.markedLines, Function.comp_def, selected]

theorem markedLines_shownAt
    (verbosity : Verbosity) :
    (outcome.shownAt verbosity).markedLines =
      outcome.markedLines.filter (verbosity.shows ·.1) :=
  (filter_markedLines verbosity.shows outcome.stderr).symm

/-- A verbosity withholds nothing but log records. -/
theorem toldLines_shownAt
    (verbosity : Verbosity) :
    (outcome.shownAt verbosity).toldLines = outcome.toldLines := by
  rw [toldLines, toldLines, markedLines_shownAt, List.filter_filter]
  refine congrArg (List.map _) (List.filter_congr ?_)
  rintro ⟨_ | level, line⟩ -
  · rfl
  · exact Bool.false_and _

/-- What is told are the lines of the notices without a level. -/
theorem toldLines_eq :
    outcome.toldLines =
      (outcome.stderr.filter (·.level?.isNone)).flatMap fun notice =>
        notice.text.splitOn "\n" := by
  rw [toldLines, markedLines, filter_markedLines]
  simp [Notice.markedLines, List.map_flatMap, Function.comp_def]

end Outcome

/-- What happens while a text is worked on in a mode. -/
def happenings
    (mode : Mode)
    (source : String) :
    List Event :=
  match mode with
  | .scan => (scan source).map fun token => .log (.scanned token)
  | .parse => (transcribe source).2.toList
  | .dump => (transcribe source).2.toList

/-- All that there is to tell in a run. -/
def notices
    (options : Options)
    (content : Except ReadError String) :
    List Notice :=
  (options.modes.records.map fun record => .event (.log record)) ++
    match content with
    | .error error => [.unreadable error]
    | .ok source => (happenings options.modes.mode source).map .event

/-- The outcome of a run, with all that there is to tell. -/
def unabridged
    (options : Options)
    (content : Except ReadError String) :
    Outcome :=
  let stderr := notices options content
  match content with
  | .error _ => ⟨unusable, "", stderr⟩
  | .ok source =>
      match options.modes.mode with
      | .scan => ⟨0, tokenListing (scan source), stderr⟩
      | _ =>
          let report := (validate source).report
          ⟨verdict report, reportText options report, stderr⟩

theorem stderr_unabridged
    (options : Options)
    (content : Except ReadError String) :
    (unabridged options content).stderr = notices options content := by
  rw [unabridged.eq_def]
  cases content with
  | error error =>
      rfl
  | ok source =>
      dsimp only
      cases options.modes.mode <;> rfl

theorem toList_openingEvents
    (verbosity : Verbosity)
    (options : Options) :
    (openingEvents verbosity options).toList =
      (options.modes.records.map Event.log).filter fun event =>
        verbosity.shows event.level? := by
  rw [openingEvents, Listener.foldl_filtered, Array.empty_append]

/-- A console that has heard all events of a text holds those that are shown. -/
theorem map_heard
    (verbosity : Verbosity)
    (options : Options)
    (source : String) :
    ((happenings options.modes.mode source).foldl
        (Listener.filtered verbosity).hear
        (openingEvents verbosity options)).toList.map Notice.event =
      (notices options (.ok source)).filter
        (verbosity.shows ·.level?) := by
  rw [Listener.foldl_filtered, Array.toList_append, toList_openingEvents,
    ← List.filter_append, notices]
  simp [List.filter_map, Function.comp_def, Notice.level?]

/-- Of what there is to tell, a run tells what its verbosity shows. -/
theorem run_eq_shownAt
    (verbosity : Verbosity)
    (options : Options)
    (content : Except ReadError String) :
    run verbosity options content =
      (unabridged options content).shownAt verbosity := by
  cases content with
  | error error =>
      have told :
          (openingEvents verbosity options).toList.map Notice.event ++
              [.unreadable error] =
            (notices options (.error error)).filter
              (verbosity.shows ·.level?) := by
        rw [toList_openingEvents, notices, List.filter_append]
        simp [List.filter_map, Function.comp_def, Notice.level?,
          Verbosity.shows]
      exact congrArg (Outcome.mk unusable "") told
  | ok source =>
      have told := map_heard verbosity options source
      have parsed :=
        parse_eq_transcribe (.filtered verbosity)
          (openingEvents verbosity options) source
      rw [report_transcribe] at parsed
      rw [run.eq_def, unabridged, Outcome.shownAt]
      dsimp only
      generalize options.modes.mode = mode at told
      cases mode with
      | scan =>
          exact congrArg (Outcome.mk 0 (tokenListing (scan source))) told
      | parse =>
          rw [runParse, parsed]
          exact congrArg (Outcome.mk _ _) told
      | dump =>
          rw [runParse, parsed]
          exact congrArg (Outcome.mk _ _) told

theorem arises_of_mem_happenings
    {mode : Mode}
    {source : String}
    {event : Event}
    (member : event ∈ happenings mode source) :
    event.Arises := by
  have parsed := (transcribe_adds source).2
  cases mode with
  | scan =>
      obtain ⟨token, isToken, rfl⟩ := List.mem_map.mp member
      exact Scanner.isScanned_of_mem_tokens isToken
  | parse => exact parsed event member
  | dump => exact parsed event member

/-- Every record and every diagnostic takes up one line of standard error. -/
theorem oneLine_of_mem_notices
    {options : Options}
    {content : Except ReadError String}
    {event : Event}
    (member : .event event ∈ notices options content) :
    Text.OneLine (Notice.event event).text := by
  have arises :
      event = .log .conflictingModes ∨ event.Arises := by
    rw [notices.eq_def, List.mem_append] at member
    rcases member with isOpening | later
    · obtain ⟨record, chosen, isEvent⟩ := List.mem_map.mp isOpening
      cases isEvent
      rw [ModeFlags.records] at chosen
      split at chosen
      · exact .inl (congrArg Event.log (List.mem_singleton.mp chosen))
      · cases chosen
    · cases content with
      | error error =>
          cases List.mem_singleton.mp later
      | ok source =>
          obtain ⟨_, happened, isEvent⟩ := List.mem_map.mp later
          cases isEvent
          exact .inr (arises_of_mem_happenings happened)
  cases event with
  | log record =>
      refine (LogRecord.oneLine_text fun clear => ?_).printedPart
      exact arises.resolve_left (clear ∘ Event.log.inj)
  | report diagnostic =>
      exact Diagnostic.oneLine_text (arises.resolve_left nofun)

end CommandLine

end Iloc
