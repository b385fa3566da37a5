import Iloc.Proofs.Grammar.Statement
import Iloc.Proofs.Scanner.Cursor
import Mathlib.Data.Nat.Digits.Defs

namespace Iloc

/-!
# What numerals and words stand for

The kind of a numeral or a word is told by its spelling.  Numbers go by their
value: a numeral is too large because of the number that it denotes, never
because of the number of its digits, and so is a register.  All other words are
mnemonics, words that begin like a register and go on like none, or unknown.

Every numeral and every word has exactly one of these kinds.
-/

/-- The number that digits denote in base ten, the last digit being the lowest. -/
def Text.placeValue (digits : List Char) : Nat :=
  Nat.ofDigits 10
    (digits.reverse.map fun digit => digit.toNat - '0'.toNat)

/-- The kind of a number, if 32 bits hold it, and an error otherwise. -/
def TokenKind.ofNumber
    (fitting : UInt32 → TokenKind)
    (number : Nat) :
    TokenKind :=
  if number ≤ 4294967295 then
    fitting (UInt32.ofNat number)
  else
    .error .overflow

/-- The spellings of numerals and words, each with the kind that it stands for. -/
inductive Denotes : List Char → TokenKind → Prop where
  /-- A numeral stands for its value, whatever zeros are put before it. -/
  | numeral
      (zeros : Nat)
      {digits : List Char}
      (nonempty : digits ≠ [])
      (allDigits : ∀ character ∈ digits, character.isDigit = true) :
      Denotes (List.replicate zeros '0' ++ digits)
        (.ofNumber .constant (Text.placeValue digits))
  /-- The letter r and a numeral stand for the register of that number. -/
  | register
      (zeros : Nat)
      {digits : List Char}
      (nonempty : digits ≠ [])
      (allDigits : ∀ character ∈ digits, character.isDigit = true) :
      Denotes ('r' :: (List.replicate zeros '0' ++ digits))
        (.ofNumber .register (Text.placeValue digits))
  /-- A mnemonic stands for its opcode. -/
  | opcode
      (opcode : Opcode) :
      Denotes opcode.mnemonic.toList (.opcode opcode)
  /-- A number in a register must not be followed by anything. -/
  | malformed
      {digit : Char}
      {rest : List Char}
      (isDigit : digit.isDigit = true)
      (goesOn : ∃ character ∈ rest, character.isDigit = false) :
      Denotes ('r' :: digit :: rest) (.error .malformedRegister)
  /-- All other words are unknown. -/
  | unknown
      {first : Char}
      {rest : List Char}
      (letter : first.isAlpha = true)
      (noMnemonic :
        ∀ opcode : Opcode, opcode.mnemonic.toList ≠ first :: rest)
      (noNumber :
        first = 'r' → ∀ digit ∈ rest.head?, digit.isDigit = false) :
      Denotes (first :: rest) (.error .unknownWord)

namespace Text

theorem placeValue_concat
    (digits : List Char)
    (last : Char) :
    placeValue (digits ++ [last]) =
      10 * placeValue digits + (last.toNat - '0'.toNat) := by
  simp only [placeValue, List.reverse_append, List.reverse_cons,
    List.reverse_nil, List.nil_append, List.cons_append, List.map_cons,
    Nat.ofDigits_cons]
  exact Nat.add_comm _ _

/-- Reading digits from the left comes to the number that they denote. -/
theorem decimalValue_eq_placeValue
    (digits : List Char) :
    decimalValue digits = placeValue digits := by
  induction digits using List.reverseRecOn with
  | nil =>
      rfl
  | append_singleton digits last inductionHypothesis =>
      rw [placeValue_concat, ← inductionHypothesis, decimalValue,
        Nat.ofDigitChars_append]
      rfl

/-- Zeros before a numeral add nothing to its value. -/
theorem placeValue_zeros
    (zeros : Nat)
    (digits : List Char) :
    placeValue (List.replicate zeros '0' ++ digits) =
      placeValue digits := by
  simp [placeValue, Nat.ofDigits_append_replicate_zero]

/-- A numeral is read exactly if 32 bits hold the number that it denotes. -/
theorem word32?_eq
    (digits : List Char) :
    word32? digits =
      if placeValue digits ≤ 4294967295 then
        some (UInt32.ofNat (placeValue digits))
      else
        none := by
  split
  · rename_i fits
    rw [word32?_eq_some_iff, decimalValue_eq_placeValue]
    exact (UInt32.toNat_ofNat_of_lt' (Nat.lt_succ_of_le fits)).symm
  · rename_i large
    rw [Option.eq_none_iff_forall_ne_some]
    intro value isValue
    rw [word32?_eq_some_iff, decimalValue_eq_placeValue] at isValue
    have bound := value.toNat_lt
    omega

end Text

namespace Grammar

variable {text : List Char}

/-- Digits that cannot be read are too large a number, whatever it is for. -/
theorem ofNumber_placeValue
    (fitting : UInt32 → TokenKind)
    (digits : List Char) :
    TokenKind.ofNumber fitting (Text.placeValue digits) =
      match Text.word32? digits with
      | some number => fitting number
      | none => .error .overflow := by
  rw [TokenKind.ofNumber, Text.word32?_eq]
  by_cases fits : Text.placeValue digits ≤ 4294967295
  · rw [if_pos fits, if_pos fits]
  · rw [if_neg fits, if_neg fits]

/-- A numeral is a constant of the number that it denotes. -/
theorem numeralKind_eq
    (digits : List Char) :
    Scanner.numeralKind (String.ofList digits) =
      .ofNumber .constant (Text.placeValue digits) := by
  rw [Scanner.numeralKind, String.toList_ofList]
  exact (ofNumber_placeValue .constant digits).symm

/-- Behind the letter r a numeral is a register of the number it denotes. -/
theorem registerKind_of_digits
    {digits : List Char}
    (nonempty : digits ≠ [])
    (allDigits : ∀ character ∈ digits, character.isDigit = true) :
    Scanner.registerKind (String.ofList ('r' :: digits)) =
      .ofNumber .register (Text.placeValue digits) := by
  obtain ⟨first, rest, rfl⟩ := List.exists_cons_of_ne_nil nonempty
  have isDigit := allDigits first List.mem_cons_self
  have every := List.all_eq_true.mpr allDigits
  simp only [Scanner.registerKind, String.toList_ofList, List.head?_cons,
    Option.any_some, isDigit, every, Bool.true_eq_false, ↓reduceIte]
  exact (ofNumber_placeValue .register (first :: rest)).symm

/-- A number that something else follows makes no register. -/
theorem registerKind_of_malformed
    {digit : Char}
    {rest : List Char}
    (isDigit : digit.isDigit = true)
    (goesOn : ∃ character ∈ rest, character.isDigit = false) :
    Scanner.registerKind (String.ofList ('r' :: digit :: rest)) =
      .error .malformedRegister := by
  obtain ⟨character, member, other⟩ := goesOn
  have notAll : (digit :: rest).all Char.isDigit = false := by
    rw [List.all_eq_false]
    exact ⟨character, List.mem_cons_of_mem _ member, by simp [other]⟩
  simp only [Scanner.registerKind, String.toList_ofList, List.head?_cons,
    Option.any_some, isDigit, notAll, Bool.true_eq_false, ↓reduceIte]

/-- A word that does not begin like a register is unknown. -/
theorem registerKind_of_unknown
    {first : Char}
    {rest : List Char}
    (noNumber :
      first = 'r' → ∀ digit ∈ rest.head?, digit.isDigit = false) :
    Scanner.registerKind (String.ofList (first :: rest)) =
      .error .unknownWord := by
  rw [Scanner.registerKind, String.toList_ofList]
  split
  · rename_i digits isR
    obtain ⟨isFirst, rfl⟩ := List.cons.inj isR
    have none : rest.head?.any Char.isDigit = false := by
      cases second : rest.head? with
      | none =>
          rfl
      | some digit =>
          exact noNumber isFirst digit second
    rw [if_pos none]
  · rfl

/-- A word that is no mnemonic is judged as a register. -/
theorem wordKind_of_noMnemonic
    (noMnemonic : ∀ opcode : Opcode, opcode.mnemonic.toList ≠ text) :
    Scanner.wordKind (String.ofList text) =
      Scanner.registerKind (String.ofList text) := by
  have none : Opcode.ofMnemonic? (String.ofList text) = none := by
    rw [Option.eq_none_iff_forall_ne_some]
    intro opcode found
    rw [Opcode.ofMnemonic?_eq_some_iff] at found
    apply noMnemonic opcode
    rw [found, String.toList_ofList]
  rw [Scanner.wordKind, none]

/-- A lexeme that begins with a letter is judged as a word. -/
theorem ofLexeme_of_isAlpha
    {first : Char}
    (letter : first.isAlpha = true)
    (rest : List Char) :
    TokenKind.ofLexeme (first :: rest) =
      Scanner.wordKind (String.ofList (first :: rest)) := by
  obtain ⟨notLineFeed, notComma, notEquals, notSlash⟩ :=
    Text.ne_of_isAlphanum (Text.isAlphanum_of_isAlpha letter)
  have notDigit : first.isDigit = false :=
    Text.isDigit_of_isAlpha letter
  simp only [TokenKind.ofLexeme, notLineFeed, notComma, notEquals,
    notSlash, notDigit, letter, Bool.false_eq_true, ↓reduceIte]

/-- Zeros before digits are digits, and there are digits behind them. -/
theorem digits_of_zeros
    (zeros : Nat)
    {digits : List Char}
    (nonempty : digits ≠ [])
    (allDigits : ∀ character ∈ digits, character.isDigit = true) :
    List.replicate zeros '0' ++ digits ≠ [] ∧
      ∀ character ∈ List.replicate zeros '0' ++ digits,
        character.isDigit = true := by
  refine ⟨List.append_ne_nil_of_right_ne_nil _ nonempty, ?_⟩
  intro character member
  rcases List.mem_append.mp member with inZeros | inDigits
  · rw [List.eq_of_mem_replicate inZeros]
    rfl
  · exact allDigits character inDigits

end Grammar

namespace Denotes

variable {text following : List Char} {kind : TokenKind}

/-- What a spelling stands for is the kind that its lexeme is given. -/
theorem ofLexeme_eq
    (denotes : Denotes text kind) :
    TokenKind.ofLexeme text = kind := by
  cases denotes with
  | @numeral zeros digits nonempty allDigits =>
      obtain ⟨nonempty, allDigits⟩ :=
        Grammar.digits_of_zeros zeros nonempty allDigits
      have isNumeral :=
        Grammar.isNumeral_of_digits nonempty allDigits
          (Text.endsRun_nil Char.isDigit)
      rw [isNumeral.ofLexeme_eq, Grammar.numeralKind_eq,
        Text.placeValue_zeros]
  | @register zeros digits nonempty allDigits =>
      obtain ⟨nonempty, allDigits⟩ :=
        Grammar.digits_of_zeros zeros nonempty allDigits
      -- The table of opcodes is asked first, and has no such word.
      have noMnemonic (opcode : Opcode) :=
        Grammar.mnemonic_ne_register opcode allDigits nonempty
      rw [Grammar.ofLexeme_of_isAlpha (by decide),
        Grammar.wordKind_of_noMnemonic noMnemonic,
        Grammar.registerKind_of_digits nonempty allDigits,
        Text.placeValue_zeros]
  | opcode opcode =>
      have isWord :=
        Grammar.isWord_mnemonic opcode (Text.endsRun_nil Char.isAlphanum)
      rw [isWord.ofLexeme_eq, Scanner.wordKind, String.ofList_toList,
        Opcode.ofMnemonic?_mnemonic]
  | @malformed digit rest isDigit goesOn =>
      have noMnemonic (opcode : Opcode) :=
        Grammar.mnemonic_ne_of_isDigit opcode isDigit rest
      rw [Grammar.ofLexeme_of_isAlpha (by decide),
        Grammar.wordKind_of_noMnemonic noMnemonic,
        Grammar.registerKind_of_malformed isDigit goesOn]
  | unknown letter noMnemonic noNumber =>
      rw [Grammar.ofLexeme_of_isAlpha letter,
        Grammar.wordKind_of_noMnemonic noMnemonic,
        Grammar.registerKind_of_unknown noNumber]

/-- Every numeral stands for a number. -/
theorem exists_of_isNumeral
    (isNumeral : IsNumeral text following) :
    ∃ kind, Denotes text kind := by
  cases isNumeral with
  | run digit digits longest =>
      exact
        ⟨_, .numeral 0 (List.cons_ne_nil _ _)
          (List.forall_mem_cons.mpr ⟨digit, digits⟩)⟩

/-- Words that begin like a register are registers or malformed. -/
theorem exists_of_isDigit
    {digit : Char}
    (isDigit : digit.isDigit = true)
    (rest : List Char) :
    ∃ kind, Denotes ('r' :: digit :: rest) kind := by
  by_cases allDigits : ∀ character ∈ rest, character.isDigit = true
  · exact
      ⟨_, .register 0 (List.cons_ne_nil digit rest)
        (List.forall_mem_cons.mpr ⟨isDigit, allDigits⟩)⟩
  · push Not at allDigits
    obtain ⟨character, member, other⟩ := allDigits
    exact
      ⟨_, .malformed isDigit
        ⟨character, member, Bool.eq_false_iff.mpr other⟩⟩

/-- Every word stands for something, if only for an unknown word. -/
theorem exists_of_isWord
    (isWord : IsWord text following) :
    ∃ kind, Denotes text kind := by
  cases isWord with
  | @run first rest following letter alphanumeric longest =>
      by_cases isMnemonic :
          ∃ opcode : Opcode, opcode.mnemonic.toList = first :: rest
      · obtain ⟨opcode, spelled⟩ := isMnemonic
        rw [← spelled]
        exact ⟨_, .opcode opcode⟩
      by_cases isNumber :
          first = 'r' ∧ ∃ digit ∈ rest.head?, digit.isDigit = true
      · obtain ⟨rfl, digit, isHead, isDigit⟩ := isNumber
        obtain ⟨others, rfl⟩ := List.head?_eq_some_iff.mp isHead
        exact exists_of_isDigit isDigit others
      · refine ⟨_, .unknown letter (not_exists.mp isMnemonic) ?_⟩
        intro isR digit isHead
        rw [Bool.eq_false_iff]
        intro isDigit
        exact isNumber ⟨isR, digit, isHead, isDigit⟩

end Denotes

/--
Wherever a numeral or a word stands in a text, all of it is read, and its kind is
the one that its spelling stands for: the number in it, zeros or not, if 32 bits
hold that number; the opcode that it is the mnemonic of; a register that goes on
like none, however large the number in it; or an unknown word.
-/
theorem kind_iff_denotes
    (source : String)
    (number : Nat)
    {gap text following : List Char}
    (blank : ∀ character ∈ gap, Text.isBlank character = true)
    (ahead :
      ((Scanner.ofSource source).afterReadings number).rest =
        gap ++ (text ++ following))
    (shape : IsNumeral text following ∨ IsWord text following) :
    let reading := ((Scanner.ofSource source).afterReadings number).next
    reading.2.rest = following ∧
      ∀ kind, reading.1.kind = kind ↔ Denotes text kind := by
  intro reading
  obtain ⟨taken, reached⟩ := Scanner.Reached.ofReadings source number
  obtain ⟨earlier, aligned⟩ := reached.exists_aligned
  obtain ⟨blanks, lexeme, reads⟩ := Scanner.exists_reads _
  have oneShape : (TokenKind.error .overflow).Shape text following := shape
  obtain ⟨rfl, behind⟩ := reads.eq_of_shape blank oneShape ahead
  have isKind : reading.1.kind = .ofLexeme lexeme :=
    reads.kind_eq aligned
  refine ⟨behind, ?_⟩
  intro kind
  rw [isKind]
  constructor
  · -- Each spelling stands for some kind, hence for the one it is given.
    rintro rfl
    obtain ⟨kind, denotes⟩ :=
      shape.elim Denotes.exists_of_isNumeral Denotes.exists_of_isWord
    rw [denotes.ofLexeme_eq]
    exact denotes
  · exact Denotes.ofLexeme_eq

/-- A register that goes on like none is no number, however many digits. -/
theorem kind_iff_denotes_malformed :
    let scanner :=
      (Scanner.ofSource "\u3000r99999999999x,").afterReadings 0
    let word := "r99999999999x".toList
    (∀ character ∈ ['\u3000'], Text.isBlank character = true) ∧
      scanner.rest = ['\u3000'] ++ (word ++ [',']) ∧
      IsWord word [','] ∧
      scanner.next.2.rest = [','] ∧
      scanner.next.1.kind = .error .malformedRegister := by
  intro scanner word
  have blank :
      ∀ character ∈ ['\u3000'], Text.isBlank character = true :=
    List.forall_mem_singleton.mpr rfl
  have ahead : scanner.rest = ['\u3000'] ++ (word ++ [',']) := rfl
  have isWord : IsWord word [','] :=
    .run rfl (List.all_eq_true.mp rfl) (Text.endsRun_cons rfl [])
  have malformed : Denotes word (.error .malformedRegister) :=
    .malformed rfl ⟨'x', List.mem_of_getLast? rfl, rfl⟩
  have reads :=
    kind_iff_denotes "\u3000r99999999999x," 0 blank ahead
      (.inr isWord)
  exact ⟨blank, ahead, isWord, reads.1, (reads.2 _).mpr malformed⟩

end Iloc
