import Iloc.Instruction
import Iloc.Proofs.Scanner.TextLines
import Mathlib.Computability.Language
import Mathlib.Order.CompletePartialOrder
import Mathlib.Order.ConditionallyCompleteLattice.Basic

namespace Iloc

/-!
# The grammar of statements

A statement is described character by character: where blanks may stand, where
one has to stand, and how words, numerals and registers are spelled.  Nothing in
the description knows of tokens.

A text is a statement of an instruction exactly if its tokens are those of the
instruction.  Only behind an opcode two tokens meet that would run into one, so
only there the grammar demands a blank.
-/

namespace Grammar

/-- Any number of blanks. -/
def blanks : Language Char :=
  {gap | ∀ character ∈ gap, Text.isBlank character = true}

/-- At least one blank. -/
def separator : Language Char :=
  {gap | gap ∈ blanks ∧ gap ≠ []}

/-- The digits of a number, with any number of leading zeros. -/
def numeral (value : UInt32) : Language Char :=
  {digits |
    digits ≠ [] ∧
      (∀ character ∈ digits, character.isDigit = true) ∧
        Text.decimalValue digits = value.toNat}

/-- The letter r and the number of a register. -/
def register (number : UInt32) : Language Char :=
  {text | ∃ digits ∈ numeral number, text = 'r' :: digits}

/-- The mnemonic of an opcode. -/
def word (opcode : Opcode) : Language Char :=
  {opcode.mnemonic.toList}

def comma : Language Char :=
  {[',']}

def arrow : Language Char :=
  {['=', '>']}

end Grammar

open Grammar in
/-- The statements of an instruction. -/
def Instruction.statement : Instruction → Language Char
  | .mem op source destination =>
      blanks * word (.mem op) * separator * register source *
        blanks * arrow * blanks * register destination * blanks
  | .loadI constant destination =>
      blanks * word .loadI * separator * numeral constant *
        blanks * arrow * blanks * register destination * blanks
  | .arith op left right destination =>
      blanks * word (.arith op) * separator * register left *
        blanks * comma * blanks * register right *
        blanks * arrow * blanks * register destination * blanks
  | .output constant =>
      blanks * word .output * separator * numeral constant * blanks
  | .nop =>
      blanks * word .nop * blanks

/-- The kinds of the tokens of a statement. -/
def Instruction.kinds : Instruction → List TokenKind
  | .mem op source destination =>
      [.opcode (.mem op), .register source, .into, .register destination]
  | .loadI constant destination =>
      [.opcode .loadI, .constant constant, .into, .register destination]
  | .arith op left right destination =>
      [.opcode (.arith op), .register left, .comma, .register right,
        .into, .register destination]
  | .output constant =>
      [.opcode .output, .constant constant]
  | .nop =>
      [.opcode .nop]

namespace Grammar

/-! ## How lexemes are spelled -/

/-- The texts that continue no run of characters of some class. -/
def ended (condition : Char → Bool) : Language Char :=
  {text | Text.EndsRun condition text}

/-- A mnemonic is made of letters. -/
theorem isWord_mnemonic
    (opcode : Opcode)
    {following : List Char}
    (ended : Text.EndsRun Char.isAlphanum following) :
    IsWord opcode.mnemonic.toList following := by
  rcases opcode with ⟨_ | _⟩ | _ | ⟨_ | _ | _ | _ | _⟩ | _ | _
  all_goals exact .run rfl (List.all_eq_true.mp rfl) ended

/-- No mnemonic begins like a register. -/
theorem mnemonic_ne_of_isDigit
    (opcode : Opcode)
    {digit : Char}
    (isDigit : digit.isDigit = true)
    (rest : List Char) :
    opcode.mnemonic.toList ≠ 'r' :: digit :: rest := by
  intro spelled
  rcases opcode with ⟨_ | _⟩ | _ | ⟨_ | _ | _ | _ | _⟩ | _ | _
  all_goals
    simp [Opcode.mnemonic] at spelled
  rw [← spelled.1] at isDigit
  cases isDigit

/-- No mnemonic is spelled like a register. -/
theorem mnemonic_ne_register
    (opcode : Opcode)
    {digits : List Char}
    (isNumeral : ∀ character ∈ digits, character.isDigit = true)
    (nonempty : digits ≠ []) :
    opcode.mnemonic.toList ≠ 'r' :: digits := by
  obtain ⟨first, rest, rfl⟩ := List.exists_cons_of_ne_nil nonempty
  have isDigit := isNumeral first List.mem_cons_self
  exact mnemonic_ne_of_isDigit opcode isDigit rest

variable {text following : List Char}

/-- Digits that no further digit follows are a numeral. -/
theorem isNumeral_of_digits
    (nonempty : text ≠ [])
    (allDigits : ∀ character ∈ text, character.isDigit = true)
    (ended : Text.EndsRun Char.isDigit following) :
    IsNumeral text following := by
  obtain ⟨first, rest, rfl⟩ := List.exists_cons_of_ne_nil nonempty
  obtain ⟨digit, digits⟩ := List.forall_mem_cons.mp allDigits
  exact .run digit digits ended

theorem isNumeral_of_mem_numeral
    {value : UInt32}
    (spelled : text ∈ numeral value)
    (ended : Text.EndsRun Char.isDigit following) :
    IsNumeral text following :=
  isNumeral_of_digits spelled.1 spelled.2.1 ended

/-- A numeral is a constant of the value of its digits. -/
theorem constant_iff
    {value : UInt32} :
    (TokenKind.constant value).Shape text following ∧
        .constant value = TokenKind.ofLexeme text ↔
      text ∈ numeral value ∧ following ∈ ended Char.isDigit := by
  constructor
  · rintro ⟨shape, isKind⟩
    have numeral : IsNumeral text following := shape
    rw [numeral.ofLexeme_eq, Scanner.numeralKind,
      String.toList_ofList] at isKind
    split at isKind
    · rename_i found isValue
      obtain rfl := TokenKind.constant.inj isKind
      rw [Text.word32?_eq_some_iff] at isValue
      cases numeral with
      | run digit digits longest =>
          refine ⟨⟨by simp, ?_, isValue⟩, longest⟩
          exact List.forall_mem_cons.mpr ⟨digit, digits⟩
    · cases isKind
  · rintro ⟨spelled, ended⟩
    have numeral := isNumeral_of_mem_numeral spelled ended
    refine ⟨numeral, ?_⟩
    rw [numeral.ofLexeme_eq, Scanner.numeralKind, String.toList_ofList,
      Text.word32?_eq_some_iff.mpr spelled.2.2]

theorem registerKind_ne_opcode
    (lexeme : String)
    (opcode : Opcode) :
    Scanner.registerKind lexeme ≠ .opcode opcode := by
  rw [Scanner.registerKind]
  split
  · split
    · simp
    split
    · simp
    split
    · simp
    · simp
  · simp

/-- A word is an opcode exactly if it is its mnemonic. -/
theorem opcode_iff
    {opcode : Opcode} :
    (TokenKind.opcode opcode).Shape text following ∧
        .opcode opcode = TokenKind.ofLexeme text ↔
      text ∈ word opcode ∧ following ∈ ended Char.isAlphanum := by
  constructor
  · rintro ⟨shape, isKind⟩
    have isWord : IsWord text following := shape
    rw [isWord.ofLexeme_eq, Scanner.wordKind] at isKind
    split at isKind
    · rename_i found isMnemonic
      obtain rfl := TokenKind.opcode.inj isKind
      rw [Opcode.ofMnemonic?_eq_some_iff] at isMnemonic
      cases isWord with
      | run letter alphanumeric longest =>
          refine ⟨?_, longest⟩
          show _ = opcode.mnemonic.toList
          rw [isMnemonic, String.toList_ofList]
    · exact absurd isKind.symm (registerKind_ne_opcode _ _)
  · rintro ⟨spelled, ended⟩
    obtain rfl : text = opcode.mnemonic.toList := spelled
    have isWord := isWord_mnemonic opcode ended
    refine ⟨isWord, ?_⟩
    rw [isWord.ofLexeme_eq, Scanner.wordKind, String.ofList_toList,
      Opcode.ofMnemonic?_mnemonic]

/-- The letter r and a numeral are a register of the value of the numeral. -/
theorem registerKind_eq_register_iff
    {number : UInt32} :
    Scanner.registerKind (String.ofList text) = .register number ↔
      text ∈ register number := by
  rw [Scanner.registerKind, String.toList_ofList]
  constructor
  · intro isRegister
    split at isRegister
    · rename_i digits
      split at isRegister
      · cases isRegister
      rename_i startsWithDigit
      split at isRegister
      · cases isRegister
      rename_i allDigits
      split at isRegister
      · rename_i found isValue
        obtain rfl := TokenKind.register.inj isRegister
        rw [Text.word32?_eq_some_iff] at isValue
        rw [Bool.not_eq_false, List.all_eq_true] at allDigits
        refine ⟨digits, ⟨?_, allDigits, isValue⟩, rfl⟩
        rintro rfl
        exact startsWithDigit rfl
      · cases isRegister
    · cases isRegister
  · rintro ⟨digits, ⟨nonempty, allDigits, isValue⟩, rfl⟩
    have everyDigit := List.all_eq_true.mpr allDigits
    have startsWithDigit : digits.head?.any Char.isDigit = true := by
      cases digits with
      | nil =>
          exact absurd rfl nonempty
      | cons first rest =>
          exact allDigits first List.mem_cons_self
    simp only [startsWithDigit, everyDigit, Bool.true_eq_false,
      ↓reduceIte, Text.word32?_eq_some_iff.mpr isValue]

/-- A word is a register exactly if it is spelled as one. -/
theorem register_iff
    {number : UInt32} :
    (TokenKind.register number).Shape text following ∧
        .register number = TokenKind.ofLexeme text ↔
      text ∈ register number ∧ following ∈ ended Char.isAlphanum := by
  constructor
  · rintro ⟨shape, isKind⟩
    have isWord : IsWord text following := shape
    rw [isWord.ofLexeme_eq, Scanner.wordKind] at isKind
    split at isKind
    · cases isKind
    · cases isWord with
      | run letter alphanumeric longest =>
          exact ⟨registerKind_eq_register_iff.mp isKind.symm, longest⟩
  · rintro ⟨spelled, ended⟩
    have isRegister := registerKind_eq_register_iff.mpr spelled
    obtain ⟨digits, ⟨nonempty, allDigits, isValue⟩, rfl⟩ := spelled
    have isWord : IsWord ('r' :: digits) following := by
      refine .run (by decide) ?_ ended
      intro character member
      rw [Char.isAlphanum, allDigits character member, Bool.or_true]
    refine ⟨isWord, ?_⟩
    have noMnemonic :
        Opcode.ofMnemonic? (String.ofList ('r' :: digits)) = none := by
      rw [Option.eq_none_iff_forall_ne_some]
      intro opcode isMnemonic
      rw [Opcode.ofMnemonic?_eq_some_iff] at isMnemonic
      refine mnemonic_ne_register opcode allDigits nonempty ?_
      rw [isMnemonic, String.toList_ofList]
    rw [isWord.ofLexeme_eq, Scanner.wordKind, noMnemonic]
    exact isRegister.symm

/-! ## Texts with given tokens -/

/-- The texts whose tokens before the end are of given kinds. -/
def spelled (expected : List TokenKind) : Language Char :=
  {characters | Text.innerKinds characters = expected}

theorem mem_spelled_iff
    {characters : List Char}
    {expected : List TokenKind} :
    characters ∈ spelled expected ↔
      Text.kinds characters = expected ++ [.eof] := by
  rw [Text.kinds_eq, List.append_left_inj]
  rfl

/-- A text without tokens is blank. -/
theorem spelled_nil : spelled [] = blanks := by
  ext characters
  rw [mem_spelled_iff]
  constructor
  · intro onlyEnd
    have tiling := Text.tiling_lexemes characters
    rw [Text.kinds] at onlyEnd
    generalize Text.lexemes characters = pieces at tiling onlyEnd
    cases tiling with
    | ended blank =>
        exact blank
    | piece blank inner shape tail =>
        obtain ⟨isEnd, -⟩ := List.cons.inj onlyEnd
        exact absurd isEnd inner
  · intro blank
    have ended : Tiling characters [⟨characters, .eof, []⟩] :=
      .ended blank
    rw [Text.kinds, Text.lexemes_eq ended]
    · rfl
    · intro piece member
      rw [List.mem_singleton.mp member]
      rfl

/--
A text with a first token is a gap, the lexeme of the token, and a text with the
tokens behind, where the lexeme ends.
-/
theorem spelled_cons
    {kind : TokenKind}
    {lexemes following : Language Char}
    (inner : kind ≠ .eof)
    (spelling :
      ∀ text rest,
        kind.Shape text rest ∧ kind = .ofLexeme text ↔
          text ∈ lexemes ∧ rest ∈ following)
    (later : List TokenKind) :
    spelled (kind :: later) =
      blanks * (lexemes * (spelled later ⊓ following)) := by
  ext characters
  rw [mem_spelled_iff]
  constructor
  · intro hasKinds
    have tiling := Text.tiling_lexemes characters
    have classified := Text.classified_lexemes characters
    rw [Text.kinds] at hasKinds
    generalize Text.lexemes characters = pieces
      at tiling classified hasKinds
    cases tiling with
    | ended blank =>
        obtain ⟨isEnd, -⟩ := List.cons.inj hasKinds
        exact absurd isEnd.symm inner
    | @piece gap text rest _ pieces blank _ shape tail =>
        obtain ⟨rfl, laterKinds⟩ := List.cons.inj hasKinds
        obtain ⟨isKind, tailClassified⟩ :=
          List.forall_mem_cons.mp classified
        obtain ⟨isLexeme, ends⟩ := (spelling text rest).mp ⟨shape, isKind⟩
        have isLater : rest ∈ spelled later := by
          rw [mem_spelled_iff, Text.kinds,
            Text.lexemes_eq tail tailClassified]
          exact laterKinds
        refine Language.mem_mul.mpr ⟨gap, blank, text ++ rest, ?_, rfl⟩
        exact
          Language.mem_mul.mpr
            ⟨text, isLexeme, rest, ⟨isLater, ends⟩, rfl⟩
  · intro isProduct
    obtain ⟨gap, blank, _, inLater, rfl⟩ := Language.mem_mul.mp isProduct
    obtain ⟨text, isLexeme, rest, ⟨isLater, ends⟩, rfl⟩ :=
      Language.mem_mul.mp inLater
    obtain ⟨shape, isKind⟩ := (spelling text rest).mpr ⟨isLexeme, ends⟩
    have laterKinds := mem_spelled_iff.mp isLater
    obtain ⟨pieces, tiling, classified, hasKinds⟩ :=
      Text.exists_terminated inner shape isKind gap blank
    rw [Text.kinds, Text.lexemes_eq tiling classified, hasKinds,
      laterKinds]
    rfl

theorem ended_isAlphanum_le : ended Char.isAlphanum ≤ ended Char.isDigit := by
  intro text ends character isHead
  have notAlphanumeric := ends character isHead
  rw [Char.isAlphanum, Bool.or_eq_false_iff] at notAlphanumeric
  exact notAlphanumeric.2

theorem not_isAlphanum_of_isBlank
    {character : Char}
    (blank : Text.isBlank character = true) :
    character.isAlphanum = false :=
  Text.isAlphanum_of_isWhiteSpace (Text.isWhiteSpace_of_isBlank blank)

variable {language : Language Char}

/-- Blanks continue no word. -/
theorem blanks_mul_le_ended
    (ends : language ≤ ended Char.isAlphanum) :
    blanks * language ≤ ended Char.isAlphanum := by
  intro text isProduct
  obtain ⟨gap, blank, rest, inLanguage, rfl⟩ :=
    Language.mem_mul.mp isProduct
  cases gap with
  | nil =>
      exact ends inLanguage
  | cons first gap =>
      intro character isHead
      obtain rfl := Option.some.inj isHead
      exact not_isAlphanum_of_isBlank (blank first List.mem_cons_self)

/-- Where a word or a numeral comes next, a word before it needs a blank. -/
theorem blanks_mul_inf_ended
    (begins :
      ∀ text ∈ language, ∃ first rest,
        text = first :: rest ∧ first.isAlphanum = true) :
    blanks * language ⊓ ended Char.isAlphanum =
      separator * language := by
  ext text
  constructor
  · rintro ⟨isProduct, ends⟩
    obtain ⟨gap, blank, rest, inLanguage, rfl⟩ :=
      Language.mem_mul.mp isProduct
    refine Language.mem_mul.mpr
      ⟨gap, ⟨blank, ?_⟩, rest, inLanguage, rfl⟩
    rintro rfl
    obtain ⟨first, more, rfl, alphanumeric⟩ := begins rest inLanguage
    have refused := ends first rfl
    rw [alphanumeric] at refused
    cases refused
  · intro isProduct
    obtain ⟨gap, ⟨blank, nonempty⟩, rest, inLanguage, rfl⟩ :=
      Language.mem_mul.mp isProduct
    refine ⟨Language.mem_mul.mpr
      ⟨gap, blank, rest, inLanguage, rfl⟩, ?_⟩
    cases gap with
    | nil =>
        exact absurd rfl nonempty
    | cons first gap =>
        intro character isHead
        obtain rfl := Option.some.inj isHead
        exact not_isAlphanum_of_isBlank (blank first List.mem_cons_self)

variable {later : List TokenKind}

theorem spelled_into :
    spelled (.into :: later) = blanks * (arrow * spelled later) := by
  have spelling (text rest : List Char) :
      TokenKind.into.Shape text rest ∧
          .into = TokenKind.ofLexeme text ↔
        text ∈ arrow ∧ rest ∈ (⊤ : Language Char) := by
    constructor
    · rintro ⟨isArrow, -⟩
      exact ⟨isArrow, trivial⟩
    · rintro ⟨rfl, -⟩
      exact ⟨rfl, rfl⟩
  rw [spelled_cons (by simp) spelling, inf_top_eq]

theorem spelled_comma :
    spelled (.comma :: later) = blanks * (comma * spelled later) := by
  have spelling (text rest : List Char) :
      TokenKind.comma.Shape text rest ∧
          .comma = TokenKind.ofLexeme text ↔
        text ∈ comma ∧ rest ∈ (⊤ : Language Char) := by
    constructor
    · rintro ⟨isComma, -⟩
      exact ⟨isComma, trivial⟩
    · rintro ⟨rfl, -⟩
      exact ⟨rfl, rfl⟩
  rw [spelled_cons (by simp) spelling, inf_top_eq]

/-- Behind an opcode the rest of the statement must not continue the word. -/
theorem spelled_opcode
    (opcode : Opcode) :
    spelled (.opcode opcode :: later) =
      blanks * (word opcode *
        (spelled later ⊓ ended Char.isAlphanum)) :=
  spelled_cons (by simp) (fun _ _ => opcode_iff) later

theorem spelled_register
    (number : UInt32)
    (ends : spelled later ≤ ended Char.isAlphanum) :
    spelled (.register number :: later) =
      blanks * (register number * spelled later) := by
  rw [spelled_cons (by simp) (fun _ _ => register_iff) later,
    inf_eq_left.mpr ends]

theorem spelled_constant
    (value : UInt32)
    (ends : spelled later ≤ ended Char.isAlphanum) :
    spelled (.constant value :: later) =
      blanks * (numeral value * spelled later) := by
  rw [spelled_cons (by simp) (fun _ _ => constant_iff) later,
    inf_eq_left.mpr (ends.trans ended_isAlphanum_le)]

/-! ## Where lexemes cannot run into one another -/

theorem spelled_nil_le_ended : spelled [] ≤ ended Char.isAlphanum := by
  rw [spelled_nil, ← mul_one blanks]
  apply blanks_mul_le_ended
  rintro _ rfl character isHead
  cases isHead

theorem spelled_into_le_ended :
    spelled (.into :: later) ≤ ended Char.isAlphanum := by
  rw [spelled_into]
  apply blanks_mul_le_ended
  intro text isProduct
  obtain ⟨_, rfl, rest, -, rfl⟩ := Language.mem_mul.mp isProduct
  intro character isHead
  obtain rfl := Option.some.inj isHead
  decide

theorem spelled_comma_le_ended :
    spelled (.comma :: later) ≤ ended Char.isAlphanum := by
  rw [spelled_comma]
  apply blanks_mul_le_ended
  intro text isProduct
  obtain ⟨_, rfl, rest, -, rfl⟩ := Language.mem_mul.mp isProduct
  intro character isHead
  obtain rfl := Option.some.inj isHead
  decide

theorem exists_cons_of_mem_register
    {number : UInt32} :
    ∀ text ∈ register number * language, ∃ first rest,
      text = first :: rest ∧ first.isAlphanum = true := by
  intro text isProduct
  obtain ⟨_, ⟨digits, -, rfl⟩, rest, -, rfl⟩ :=
    Language.mem_mul.mp isProduct
  exact ⟨'r', digits ++ rest, rfl, by decide⟩

theorem exists_cons_of_mem_numeral
    {value : UInt32} :
    ∀ text ∈ numeral value * language, ∃ first rest,
      text = first :: rest ∧ first.isAlphanum = true := by
  intro text isProduct
  obtain ⟨digits, ⟨nonempty, allDigits, -⟩, rest, -, rfl⟩ :=
    Language.mem_mul.mp isProduct
  cases digits with
  | nil =>
      exact absurd rfl nonempty
  | cons first more =>
      have digit := allDigits first List.mem_cons_self
      exact ⟨first, more ++ rest, rfl, Text.isAlphanum_of_isDigit digit⟩

/-- The statements of an instruction are the texts with its tokens. -/
theorem statement_eq_spelled
    (instruction : Instruction) :
    instruction.statement = spelled instruction.kinds := by
  cases instruction with
  | mem op source destination =>
      rw [Instruction.kinds, spelled_opcode,
        spelled_register source spelled_into_le_ended,
        blanks_mul_inf_ended exists_cons_of_mem_register, spelled_into,
        spelled_register destination spelled_nil_le_ended, spelled_nil]
      simp only [Instruction.statement, mul_assoc]
  | loadI constant destination =>
      rw [Instruction.kinds, spelled_opcode,
        spelled_constant constant spelled_into_le_ended,
        blanks_mul_inf_ended exists_cons_of_mem_numeral, spelled_into,
        spelled_register destination spelled_nil_le_ended, spelled_nil]
      simp only [Instruction.statement, mul_assoc]
  | arith op left right destination =>
      rw [Instruction.kinds, spelled_opcode,
        spelled_register left spelled_comma_le_ended,
        blanks_mul_inf_ended exists_cons_of_mem_register, spelled_comma,
        spelled_register right spelled_into_le_ended, spelled_into,
        spelled_register destination spelled_nil_le_ended, spelled_nil]
      simp only [Instruction.statement, mul_assoc]
  | output constant =>
      rw [Instruction.kinds, spelled_opcode,
        spelled_constant constant spelled_nil_le_ended,
        blanks_mul_inf_ended exists_cons_of_mem_numeral, spelled_nil]
      simp only [Instruction.statement, mul_assoc]
  | nop =>
      rw [Instruction.kinds, spelled_opcode,
        inf_eq_left.mpr spelled_nil_le_ended, spelled_nil]
      simp only [Instruction.statement, mul_assoc]

end Grammar

end Iloc
