import Iloc.Proofs.CommandLine.StandardError

namespace Iloc

/-!
# The log level only filters

The word for a level selects the verbosity of that level.  Two runs that differ
in this word alone have the same exit code and the same standard output.  What
they write on standard error is the complete log of the run with its lines in
their order, less the lines of the records that are not grave enough.

Levels are compared by their ranks, of which the gravest level has the lowest.
-/

namespace Verbosity

/-- The word that selects a verbosity. -/
def word : Verbosity → String
  | .off => "off"
  | .upTo .error => "error"
  | .upTo .warn => "warn"
  | .upTo .info => "info"
  | .upTo .debug => "debug"
  | .upTo .trace => "trace"

theorem ofSetting_word
    (verbosity : Verbosity) :
    ofSetting (some verbosity.word) = verbosity := by
  rcases verbosity with _ | _ | _ | _ | _ | _
  all_goals decide +kernel

/-- The rank of the least grave level that is shown, or zero if none is. -/
def rank : Verbosity → Nat
  | .off => 0
  | .upTo limit => limit.rank

/-- A level is withheld if it is less grave than a verbosity asks for. -/
theorem admits_eq
    (verbosity : Verbosity)
    (severity : Level) :
    verbosity.admits severity =
      decide (severity.rank ≤ verbosity.rank) := by
  cases verbosity with
  | off => cases severity <;> rfl
  | upTo limit => rfl

end Verbosity

namespace CommandLine

/-- A run at any verbosity is the run at the finest one, seen at the other. -/
theorem respond_eq_map_shownAt
    (verbosity : Verbosity)
    (read : String → Except ReadError String)
    (arguments : List String) :
    respond verbosity read arguments =
      (respond (.upTo .trace) read arguments).map
        (Outcome.shownAt verbosity) := by
  rw [respond, respond]
  cases Options.ofArguments arguments with
  | error early =>
      cases early <;> rfl
  | ok options =>
      dsimp only
      rw [run_eq_shownAt, run_eq_shownAt, Outcome.shownAt_trace]
      rfl

/-- The records of the log take up one line of standard error each. -/
theorem splitOn_of_mem_stderr
    {verbosity : Verbosity}
    {read : String → Except ReadError String}
    {arguments : List String}
    {outcome : Outcome}
    (answered : respond verbosity read arguments = .ok outcome)
    {event : Event}
    (told : .event event ∈ outcome.stderr) :
    (Notice.event event).text.splitOn "\n" =
      [(Notice.event event).text] := by
  rw [respond] at answered
  cases accepted : Options.ofArguments arguments with
  | error early =>
      rw [accepted] at answered
      cases early <;> cases answered
      all_goals cases told
  | ok options =>
      rw [accepted] at answered
      dsimp only at answered
      rw [run_eq_shownAt] at answered
      cases answered
      have noticed := List.mem_of_mem_filter told
      rw [stderr_unabridged] at noticed
      exact (oneLine_of_mem_notices noticed).splitOn

/--
The level of the log only filters it.  Seen at a level, a run has the exit code
and the standard output that it has at any other, and its lines on standard
error are those of the complete log, without the lines of records that rank
above the level.  All lines without a level remain, and the order of the lines
is kept.
-/
theorem level_only_filters
    (read : String → Except ReadError String)
    (arguments : List String)
    (level other : Verbosity) :
    let answer (level : Verbosity) :=
      respond (.ofSetting (some level.word)) read arguments
    let result (outcome : Outcome) :=
      (outcome.exitCode, outcome.stdout)
    (answer level).map result = (answer other).map result ∧
      answer level =
        (answer (.upTo .trace)).map (Outcome.shownAt level) ∧
      (answer level).map Outcome.markedLines =
        (answer (.upTo .trace)).map (fun complete =>
          complete.markedLines.filter fun (level?, _) =>
            level?.all fun severity => severity.rank ≤ level.rank) ∧
      ∀ outcome,
        answer level = .ok outcome →
          outcome.markedLines.map (·.2) = outcome.stderrLines ∧
            ∀ record,
              .event (.log record) ∈ outcome.stderr →
                (Notice.event (.log record)).text.splitOn "\n" =
                  [(Notice.event (.log record)).text] := by
  intro answer result
  have filtered :
      ∀ level,
        answer level =
          (answer (.upTo .trace)).map (Outcome.shownAt level) := by
    intro level
    simp only [answer, Verbosity.ofSetting_word]
    exact respond_eq_map_shownAt level read arguments
  have sameResult :
      ∀ level,
        (answer level).map result =
          (answer (.upTo .trace)).map result := by
    intro level
    rw [filtered level]
    cases answer (.upTo .trace) <;> rfl
  refine ⟨?_, filtered level, ?_, ?_⟩
  · rw [sameResult level, sameResult other]
  · rw [filtered level]
    cases answer (.upTo .trace) with
    | error usage => rfl
    | ok complete =>
        simp only [← Verbosity.admits_eq]
        exact congrArg Except.ok (complete.markedLines_shownAt level)
  · intro outcome answered
    refine ⟨outcome.map_snd_markedLines, ?_⟩
    intro record told
    exact splitOn_of_mem_stderr answered told

end CommandLine

end Iloc
