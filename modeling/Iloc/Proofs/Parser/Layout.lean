import Iloc.CommandLine.Outcome
import Iloc.Proofs.Parser.TokenStream
import Iloc.Proofs.Scanner.NormalForm

namespace Iloc

/-!
# Layout

The layout of a text is the white space in its lines and what its comments say.
The scanner sees none of it, the parser sees only what the scanner reads, and
everything else is made of what these two return.  Texts that differ in their
layout alone can therefore be exchanged for one another.
-/

universe u

/-- All that is made of two texts is the same. -/
structure Interchangeable (source other : String) : Prop where
  tokens : scan source = scan other
  parsed :
    ∀ {σ : Type u} (listener : Listener σ) (sink : σ),
      parse listener sink source = parse listener sink other
  validated : validate source = validate other
  validatedWith :
    ∀ {σ : Type u} (report : σ → Diagnostic → σ) (state : σ),
      validateWith report state source = validateWith report state other
  listed : tokenListing (scan source) = tokenListing (scan other)
  dumped :
    (validate source).program.plainDump =
      (validate other).program.plainDump
  drawn :
    (validate source).program.tableDump =
      (validate other).program.tableDump
  shown :
    ∀ verbosity options,
      CommandLine.run verbosity options (.ok source) =
        CommandLine.run verbosity options (.ok other)

/-- Everything is made of the tokens of a text. -/
theorem Interchangeable.of_tokens
    {source other : String}
    (tokens : scan source = scan other) :
    Interchangeable.{u} source other := by
  have validated : validate source = validate other := by
    rw [validate, validate, parse_eq_of_scan_eq tokens]
  refine ⟨tokens, ?_, validated, ?_, ?_, ?_, ?_, ?_⟩
  · intro σ listener sink
    exact parse_eq_of_scan_eq tokens listener sink
  · intro σ report state
    rw [validateWith, validateWith, parse_eq_of_scan_eq tokens]
  · rw [tokens]
  · rw [validated]
  · rw [validated]
  · intro verbosity options
    have scanned :
        CommandLine.runScan verbosity
            (CommandLine.openingEvents verbosity options) source =
          CommandLine.runScan verbosity
            (CommandLine.openingEvents verbosity options) other := by
      rw [CommandLine.runScan, CommandLine.runScan, tokens]
    have parsed :
        CommandLine.runParse verbosity
            (CommandLine.openingEvents verbosity options) options source =
          CommandLine.runParse verbosity
            (CommandLine.openingEvents verbosity options) options other := by
      rw [CommandLine.runParse, CommandLine.runParse,
        parse_eq_of_scan_eq tokens]
    rw [CommandLine.run, CommandLine.run, scanned, parsed]

/-- A text with a carriage return in front of every line feed. -/
def withCarriageReturns (source : String) : String :=
  String.ofList (source.toList.flatMap Text.carriageReturn)

theorem scan_withCarriageReturns
    (source : String) :
    scan (withCarriageReturns source) = scan source := by
  apply scan_eq_of_normalForm
  rw [withCarriageReturns, String.toList_ofList,
    Text.normalForm_carriageReturn]

/-- What a comment says, up to the end of its line, is not scanned. -/
theorem scan_comment
    {comment other after : String}
    (commentInline : '\n' ∉ comment.toList)
    (otherInline : '\n' ∉ other.toList)
    (ended : Text.EndsRun (· != '\n') after.toList)
    (before : String) :
    scan (before ++ "//" ++ comment ++ after) =
      scan (before ++ "//" ++ other ++ after) := by
  have characters (said : String) :
      (before ++ "//" ++ said ++ after).toList =
        before.toList ++ '/' :: '/' :: (said.toList ++ after.toList) := by
    simp
  apply scan_eq_of_normalForm
  rw [characters, characters]
  exact Text.normalForm_comment commentInline otherInline ended _

/--
The layout of a text is immaterial.  Nothing changes with the normal form, in
which comments say nothing and words stand one space apart, nor with carriage
returns before the line feeds, nor with other words in a comment.
-/
theorem layout_immaterial
    (source : String) :
    Interchangeable.{u} (normalize source) source ∧
      Interchangeable.{u} (withCarriageReturns source) source ∧
      ∀ before comment other after : String,
        '\n' ∉ comment.toList →
        '\n' ∉ other.toList →
        Text.EndsRun (· != '\n') after.toList →
          Interchangeable.{u} (before ++ "//" ++ comment ++ after)
            (before ++ "//" ++ other ++ after) := by
  refine ⟨.of_tokens (scan_normalize source),
    .of_tokens (scan_withCarriageReturns source), ?_⟩
  intro before comment other after commentInline otherInline ended
  exact .of_tokens (scan_comment commentInline otherInline ended before)

/-- A text with tabs, a comment that says something, and blanks at its end. -/
theorem layout_immaterial_tabs :
    let source := "\tload  r1=>r2 // first\nnop\t \n"
    normalize source = "load r1=>r2 //\nnop\n" ∧
      scan (normalize source) = scan source ∧
      validate (withCarriageReturns source) = validate source ∧
      validate "nop // one\nfoo" = validate "nop // two // three\nfoo" := by
  intro source
  obtain ⟨normalized, returned, commented⟩ := layout_immaterial.{0} source
  have others :=
    commented "nop " " one" " two // three" "\nfoo" (by decide)
      (by decide) (by simp [Text.EndsRun])
  exact ⟨by decide +kernel, normalized.tokens, returned.validated,
    others.validated⟩

end Iloc
