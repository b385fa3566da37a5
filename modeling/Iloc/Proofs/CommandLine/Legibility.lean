import Iloc.Proofs.CommandLine.Consistency
import Iloc.Proofs.Listing.PlainDump
import Iloc.Proofs.Listing.TokenListing

namespace Iloc

/-!
# Legible diagnostics

The text of a diagnostic nests the descriptions of a line, a class, a place, a
kind of token and a lexical error, and it may quote a character of the source.
Still no two diagnostics read alike: wherever a description ends, the wording
around it goes on with a character that the description cannot contain.

A diagnostic of a text moreover takes up one line.  The only characters that are
ever quoted are unexpected ones, and white space is never unexpected.
-/

theorem Terminal.name_inj
    {terminal other : Terminal} :
    terminal.name = other.name ↔ terminal = other := by
  cases terminal <;> cases other <;> decide

/-- The name of a place has no comma in it. -/
theorem Terminal.ne_comma_of_mem_name
    (terminal : Terminal) :
    ∀ character ∈ terminal.name.toList, (character != ',') = true := by
  rw [← List.all_eq_true]
  cases terminal <;> decide

theorem Category.name_inj
    {category other : Category} :
    category.name = other.name ↔ category = other := by
  have listed :
      ∀ category ∈ table, ∀ other ∈ table,
        category.name = other.name → category = other := by
    decide
  constructor
  · exact listed category category.mem_table other other.mem_table
  · exact congrArg name

theorem OpClass.name_inj
    {opClass other : OpClass} :
    opClass.name = other.name ↔ opClass = other := by
  rw [← Category.opcode.injEq, ← Category.name_inj]
  rfl

theorem Opcode.mnemonic_inj
    {opcode other : Opcode} :
    opcode.mnemonic = other.mnemonic ↔ opcode = other := by
  constructor
  · intro same
    have found := ofMnemonic?_mnemonic opcode
    rw [same, ofMnemonic?_mnemonic] at found
    exact (Option.some.inj found).symm
  · exact congrArg mnemonic

namespace LexicalError

/-- The character that was not expected is quoted between fixed words. -/
theorem toList_text_unexpectedChar
    (character : Char) :
    (unexpectedChar character).text.toList =
      "unexpected character '".toList ++ ([character] ++ "'".toList) := by
  have shape :
      (unexpectedChar character).text =
        "unexpected character '" ++ toString character ++ "'" := rfl
  have single : (toString character).toList = [character] :=
    String.toList_singleton character
  rw [shape, String.toList_append, String.toList_append, single,
    List.append_assoc]

/-- The wording of a lexical error tells the error and its character. -/
theorem text_inj
    {reason other : LexicalError} :
    reason.text = other.text ↔ reason = other := by
  have opening (character : Char) :
      (unexpectedChar character).text.toList.take 4 = "unex".toList := by
    rw [toList_text_unexpectedChar]
    rfl
  constructor
  · intro same
    cases reason with
    | unexpectedChar character =>
        cases other with
        | unexpectedChar otherCharacter =>
            rw [← String.toList_inj, toList_text_unexpectedChar,
              toList_text_unexpectedChar, List.append_cancel_left_eq,
              List.append_cancel_right_eq] at same
            cases same
            rfl
        | _ =>
            have opened := opening character
            rw [same] at opened
            exact absurd opened (by decide)
    | _ =>
        cases other with
        | unexpectedChar otherCharacter =>
            have opened := opening otherCharacter
            rw [← same] at opened
            exact absurd opened (by decide)
        | _ =>
            revert same
            decide
  · exact congrArg text

end LexicalError

namespace TokenKind

/-- What the description of a kind says after the name of its category. -/
def detail : TokenKind → List Char
  | .opcode op => ' ' :: op.mnemonic.toList
  | .constant value => ' ' :: value.toNat.repr.toList
  | .register number => ' ' :: 'r' :: number.toNat.repr.toList
  | .error reason => ' ' :: '(' :: (reason.text.toList ++ [')'])
  | _ => []

theorem toList_text
    (kind : TokenKind) :
    kind.text.toList = kind.category.name.toList ++ kind.detail := by
  cases kind <;> simp [text, detail, toString]

/-- The name of a category is told from the detail after it. -/
theorem endsRun_detail
    (kind : TokenKind) :
    Text.EndsRun Text.isPlain kind.detail := by
  have blank : Text.isPlain ' ' = false := by
    decide
  cases kind with
  | opcode | constant | register | error =>
      exact Text.endsRun_cons blank _
  | _ => exact Text.endsRun_nil Text.isPlain

/-- Within a category, the detail of a kind is all that it carries. -/
theorem eq_of_detail_eq
    {kind other : TokenKind}
    (sameCategory : kind.category = other.category)
    (sameDetail : kind.detail = other.detail) :
    kind = other := by
  cases oneCategory_of_eq sameCategory with
  | opcode first second =>
      have same := (List.cons.inj sameDetail).2
      rw [String.toList_inj, Opcode.mnemonic_inj] at same
      exact congrArg TokenKind.opcode same
  | constant first second =>
      have same := (List.cons.inj sameDetail).2
      rw [String.toList_inj, Text.repr_inj, UInt32.toNat_inj] at same
      exact congrArg TokenKind.constant same
  | register first second =>
      have same := (List.cons.inj (List.cons.inj sameDetail).2).2
      rw [String.toList_inj, Text.repr_inj, UInt32.toNat_inj] at same
      exact congrArg TokenKind.register same
  | error first second =>
      have same := (List.cons.inj (List.cons.inj sameDetail).2).2
      rw [List.append_cancel_right_eq, String.toList_inj,
        LexicalError.text_inj] at same
      exact congrArg TokenKind.error same
  | same =>
      rfl

theorem text_inj
    {kind other : TokenKind} :
    kind.text = other.text ↔ kind = other := by
  constructor
  · intro same
    rw [← String.toList_inj, toList_text, toList_text,
      kind.category.isPlainField_name.append_inj
        other.category.isPlainField_name
        kind.endsRun_detail other.endsRun_detail,
      Category.name_inj] at same
    exact eq_of_detail_eq same.1 same.2
  · exact congrArg text

end TokenKind

namespace StatementError

theorem toList_message_mismatch
    (opClass : OpClass)
    (expected : Terminal)
    (found : TokenKind) :
    (mismatch opClass expected found).message.toList =
      "Incorrect ".toList ++ (opClass.name.toList ++
        (" syntax: ".toList ++ ("expected ".toList ++
          (expected.name.toList ++
            (", found ".toList ++ found.text.toList))))) := by
  have shape :
      (mismatch opClass expected found).message =
        "Incorrect " ++ opClass.name ++ " syntax: " ++
          ("expected " ++ expected.name ++ ", found " ++ found.text) := rfl
  simp only [shape, String.toList_append, List.append_assoc]

theorem toList_message_notAnOpcode
    (found : TokenKind) :
    (notAnOpcode found).message.toList =
      "Statement must start with an Opcode, found ".toList ++
        found.text.toList := by
  have shape :
      (notAnOpcode found).message =
        "Statement must start with an Opcode, found " ++ found.text := rfl
  rw [shape, String.toList_append]

/-- A mismatch is not worded as a missing opcode. -/
theorem message_mismatch_ne
    (opClass : OpClass)
    (expected : Terminal)
    (found otherFound : TokenKind) :
    (mismatch opClass expected found).message ≠
      (notAnOpcode otherFound).message := by
  intro same
  rw [← String.toList_inj, toList_message_mismatch,
    toList_message_notAnOpcode] at same
  have opening : some 'I' = some 'S' := congrArg List.head? same
  cases opening

/-- The wording of a mismatch tells the class, the place and the token. -/
theorem message_mismatch_inj
    {opClass otherClass : OpClass}
    {expected otherExpected : Terminal}
    {found otherFound : TokenKind} :
    (mismatch opClass expected found).message =
        (mismatch otherClass otherExpected otherFound).message ↔
      opClass = otherClass ∧ expected = otherExpected ∧
        found = otherFound := by
  have plain (opClass : OpClass) : Text.IsPlainField opClass.name :=
    (Category.opcode opClass).isPlainField_name
  have blank (rest : List Char) :
      Text.EndsRun Text.isPlain (" syntax: ".toList ++ rest) :=
    Text.endsRun_of_head? rfl (by decide) rest
  have comma (rest : List Char) :
      Text.EndsRun (· != ',') (", found ".toList ++ rest) :=
    Text.endsRun_of_head? rfl (by decide) rest
  rw [← String.toList_inj, toList_message_mismatch,
    toList_message_mismatch, List.append_cancel_left_eq,
    (plain opClass).append_inj (plain otherClass) (blank _) (blank _),
    OpClass.name_inj, List.append_cancel_left_eq,
    List.append_cancel_left_eq,
    Text.append_run_inj expected.ne_comma_of_mem_name
      otherExpected.ne_comma_of_mem_name (comma _) (comma _),
    String.toList_inj, Terminal.name_inj, List.append_cancel_left_eq,
    String.toList_inj, TokenKind.text_inj]

/-- What is wrong with a statement is told by its wording. -/
theorem message_inj
    {error other : StatementError} :
    error.message = other.message ↔ error = other := by
  constructor
  · intro same
    cases error with
    | mismatch opClass expected found =>
        cases other with
        | mismatch otherClass otherExpected otherFound =>
            obtain ⟨rfl, rfl, rfl⟩ := message_mismatch_inj.mp same
            rfl
        | notAnOpcode otherFound =>
            exact absurd same (message_mismatch_ne _ _ _ _)
    | notAnOpcode found =>
        cases other with
        | mismatch otherClass otherExpected otherFound =>
            exact absurd same.symm (message_mismatch_ne _ _ _ _)
        | notAnOpcode otherFound =>
            rw [← String.toList_inj, toList_message_notAnOpcode,
              toList_message_notAnOpcode, List.append_cancel_left_eq,
              String.toList_inj, TokenKind.text_inj] at same
            exact congrArg notAnOpcode same
  · exact congrArg message

end StatementError

namespace Diagnostic

theorem toList_text
    (diagnostic : Diagnostic) :
    diagnostic.text.toList =
      diagnostic.line.toNat.repr.toList ++
        (": ".toList ++ diagnostic.error.message.toList) := by
  simp [text, message, toString]

/-- Diagnostics that read alike are the same. -/
theorem text_inj
    {diagnostic other : Diagnostic} :
    diagnostic.text = other.text ↔ diagnostic = other := by
  constructor
  · intro same
    have colon (rest : List Char) :
        Text.EndsRun Text.isPlain (": ".toList ++ rest) :=
      Text.endsRun_of_head? rfl (by decide) rest
    rw [← String.toList_inj, toList_text, toList_text,
      Text.IsPlainField.append_inj (.repr _) (.repr _) (colon _) (colon _),
      Text.repr_inj, UInt32.toNat_inj, List.append_cancel_left_eq,
      String.toList_inj, StatementError.message_inj] at same
    obtain ⟨line, error⟩ := diagnostic
    obtain ⟨rfl, rfl⟩ := same
    rfl
  · exact congrArg text

/-- A diagnostic of a source quotes no white space. -/
theorem oneLine_text_of_mem_validate
    {source : String}
    {diagnostic : Diagnostic}
    (member : diagnostic ∈ (validate source).diagnostics) :
    Text.OneLine diagnostic.text := by
  rw [← Array.mem_toList_iff, toList_diagnostics_validate] at member
  obtain ⟨event, happened, reported⟩ := List.mem_filterMap.mp member
  have arises := (transcribe_adds source).2 event happened
  cases event with
  | log record => cases reported
  | report _ =>
      cases reported
      exact oneLine_text arises

end Diagnostic

open CommandLine in
/--
Diagnostics are legible.  No two of them have the same text, whatever their
lines, classes, places, tokens and characters.  The text of a diagnostic of a
source has no white space but the blank U+0020, in particular no line break, and
the lines of standard error that do not belong to the log are these texts, one
line for each diagnostic.
-/
theorem diagnostics_legible :
    (∀ first second : Diagnostic,
        first.text = second.text ↔ first = second) ∧
      ∀ source,
        (∀ diagnostic ∈ (validate source).diagnostics,
            Text.OneLine diagnostic.text ∧
              diagnostic.text.splitOn "\n" = [diagnostic.text]) ∧
          ∀ (verbosity : Verbosity) (options : Options),
            options.modes.mode ≠ .scan →
              (run verbosity options (.ok source)).toldLines =
                (validate source).diagnostics.toList.map
                  Diagnostic.text := by
  refine ⟨fun _ _ => Diagnostic.text_inj, fun source => ⟨?_, ?_⟩⟩
  · intro diagnostic member
    have oneLine := Diagnostic.oneLine_text_of_mem_validate member
    exact ⟨oneLine, oneLine.splitOn⟩
  · intro verbosity options parsing
    exact (judges_run verbosity parsing).toldLines

open CommandLine in
/-- A diagnostic that quotes a character beyond ASCII, and where it is told. -/
theorem diagnostics_legible_quoted :
    let source := "nop\n§ r1"
    let diagnostic : Diagnostic :=
      ⟨2, .notAnOpcode (.error (.unexpectedChar '§'))⟩
    let options : Options := ⟨⟨false, true, false⟩, false, "second.i"⟩
    diagnostic ∈ (validate source).diagnostics ∧
      diagnostic.text =
        "2: Statement must start with an Opcode, " ++
          "found ERROR (unexpected character '§')" ∧
      Text.OneLine diagnostic.text ∧
      options.modes.mode ≠ .scan ∧
      (run .off options (.ok source)).toldLines = [diagnostic.text] := by
  intro source diagnostic options
  have found : (validate source).diagnostics = #[diagnostic] := by
    decide +kernel
  have member : diagnostic ∈ (validate source).diagnostics := by
    rw [found]
    exact Array.mem_singleton_self diagnostic
  have wording :
      diagnostic.text =
        "2: Statement must start with an Opcode, " ++
          "found ERROR (unexpected character '§')" := by
    decide +kernel
  have parsing : options.modes.mode ≠ .scan := by
    decide
  obtain ⟨-, legible⟩ := diagnostics_legible
  obtain ⟨inline, told⟩ := legible source
  have shown := told .off options parsing
  rw [found] at shown
  exact ⟨member, wording, (inline diagnostic member).1, parsing, shown⟩

end Iloc
