import Iloc.Proofs.Parser.Moves

namespace Iloc

/-!
# Reporters and sessions

A reporter is told the diagnostics of a text, each once and in order, and that
is all there is between a parse and its reporter.  What validation collects is
what any reporter is told, and the number of these diagnostics is what the
parse counts.

Several texts that are parsed into one collection are therefore parsed as each
of them is alone, and the collection is that of their diagnostics, one text
after the other.
-/

universe u

variable {σ : Type u}

/-- A reporter is told the diagnostics of the transcript. -/
theorem validateWith_eq_transcribe
    (report : σ → Diagnostic → σ)
    (state : σ)
    (source : String) :
    validateWith report state source =
      ((transcribe source).1,
        ((transcribe source).2.toList.filterMap
          Event.diagnostic?).foldl report state) := by
  rw [validateWith, parse_eq_transcribe, Listener.foldl_ofReporter]

/-- Validation collects the diagnostics of the transcript. -/
theorem validate_eq_transcribe
    (source : String) :
    validate source =
      ⟨(transcribe source).1.program,
        ((transcribe source).2.toList.filterMap
          Event.diagnostic?).toArray⟩ := by
  have collected := validateWith_eq_transcribe Array.push #[] source
  rw [List.foldl_push_eq_append', Array.empty_append] at collected
  exact
    congrArg (fun result => Validation.mk result.1.program result.2)
      collected

theorem toList_diagnostics_validate
    (source : String) :
    (validate source).diagnostics.toList =
      (transcribe source).2.toList.filterMap Event.diagnostic? := by
  rw [validate_eq_transcribe]

namespace Validation

/-- The report of a parse that comes to a validation. -/
def report (validation : Validation) : Report where
  program := validation.program
  errorCount := validation.diagnostics.size

/-- The report of a parse and the validation of its text agree on success. -/
theorem isSuccess_report
    (validation : Validation) :
    validation.report.isSuccess = validation.isSuccess := by
  rw [Report.isSuccess, report, isSuccess, Array.isEmpty]
  rfl

end Validation

/-- What a parse reports is what validation comes to. -/
theorem report_transcribe
    (source : String) :
    (transcribe source).1 = (validate source).report := by
  obtain ⟨counted, -⟩ := transcribe_adds source
  rw [validate_eq_transcribe, Validation.report, List.size_toArray,
    ← counted]

/-- Whatever a reporter is, it is told what validation comes to. -/
theorem validateWith_eq_validate
    (report : σ → Diagnostic → σ)
    (state : σ)
    (source : String) :
    validateWith report state source =
      ((validate source).report,
        (validate source).diagnostics.toList.foldl report state) := by
  rw [validateWith_eq_transcribe, report_transcribe,
    toList_diagnostics_validate]

theorem length_session
    (collected : Array Diagnostic)
    (sources : List String) :
    (session collected sources).length = sources.length := by
  induction sources generalizing collected with
  | nil =>
      rfl
  | cons source sources inductionHypothesis =>
      rw [session, List.length_cons, List.length_cons,
        inductionHypothesis]

/-- The entry of a text in a session. -/
theorem getElem?_session
    (collected : Array Diagnostic)
    (sources : List String)
    (place : Nat) :
    (session collected sources)[place]? =
      sources[place]?.map fun source =>
        ((validate source).report,
          collected ++
            ((sources.take (place + 1)).flatMap fun earlier =>
              (validate earlier).diagnostics.toList).toArray) := by
  induction sources generalizing collected place with
  | nil =>
      rfl
  | cons source sources inductionHypothesis =>
      have first :
          validateWith Array.push collected source =
            ((validate source).report,
              collected ++ (validate source).diagnostics) := by
        rw [validateWith_eq_validate, List.foldl_push_eq_append',
          Array.toArray_toList]
      rw [session, first]
      cases place with
      | zero =>
          simp
      | succ place =>
          rw [List.getElem?_cons_succ, List.getElem?_cons_succ,
            inductionHypothesis]
          simp only [List.take_succ_cons, List.flatMap_cons,
            ← List.append_toArray, Array.toArray_toList,
            Array.append_assoc]

/--
A reporter only listens.  Whatever it is and whatever state it starts from, the
report is that of validation, and the reporter is told the diagnostics of
validation, each once and in order.

In a session every text is parsed as it is alone, and the collection holds the
diagnostics of the texts parsed so far, one text after the other.
-/
theorem reporter_only_listens
    (report : σ → Diagnostic → σ)
    (state : σ)
    (source : String)
    (collected : Array Diagnostic)
    (sources : List String)
    (place : Nat) :
    validateWith report state source =
        (⟨(validate source).program, (validate source).diagnostics.size⟩,
          (validate source).diagnostics.toList.foldl report state) ∧
      (validateWith report state source).1.isSuccess =
        (validate source).isSuccess ∧
      (session collected sources).length = sources.length ∧
      (session collected sources)[place]? =
        sources[place]?.map fun source =>
          ((validateWith Array.push #[] source).1,
            collected ++
              ((sources.take (place + 1)).flatMap fun earlier =>
                (validate earlier).diagnostics.toList).toArray) := by
  refine ⟨validateWith_eq_validate report state source, ?_,
    length_session collected sources, ?_⟩
  · rw [validateWith_eq_validate]
    exact Validation.isSuccess_report (validate source)
  · simp only [validateWith_eq_validate]
    exact getElem?_session collected sources place

/-- Two texts with an error on the same line, and one without. -/
example :
    session #[] ["foo", "nop", "add r1\nbar"] =
      let first := ⟨1, .notAnOpcode (.error .unknownWord)⟩
      [(⟨#[], 1⟩, #[first]),
        (⟨#[.nop], 0⟩, #[first]),
        (⟨#[], 2⟩,
          #[first,
            ⟨1, .mismatch .arithOp .comma .newLine⟩,
            ⟨2, .notAnOpcode (.error .unknownWord)⟩])] := by
  decide +kernel

end Iloc
