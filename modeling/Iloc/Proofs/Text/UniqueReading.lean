import Iloc.Proofs.Scanner.Lexeme
import Iloc.Text.Decimal
import Iloc.Text.Lines

namespace Iloc.Text

/-!
# Reading texts back

A text that is put together from parts can be taken apart again where something
keeps its parts from each other.  A run of characters is told from what follows
it by the first character that does not continue it, a line by its line feed,
and a field by the blank behind it.
-/

/-! ## Leading runs -/

/-- A wording ends a run if its first character does. -/
theorem endsRun_of_head?
    {condition : Char → Bool}
    {wording : List Char}
    {first : Char}
    (opens : wording.head? = some first)
    (refused : condition first = false)
    (rest : List Char) :
    EndsRun condition (wording ++ rest) := by
  cases wording with
  | nil => cases opens
  | cons character characters =>
      cases opens
      exact endsRun_cons refused _

/-- Characters that do not satisfy a condition end a run. -/
theorem endsRun_of_refused
    {condition : Char → Bool}
    {text : List Char}
    (nonempty : text ≠ [])
    (refused : ∀ character ∈ text, condition character = false)
    (following : List Char) :
    EndsRun condition (text ++ following) := by
  obtain ⟨first, rest, rfl⟩ := List.exists_cons_of_ne_nil nonempty
  exact endsRun_cons (refused first List.mem_cons_self) _

/-- Two texts are the same if they begin with the same run and go on alike. -/
theorem append_run_inj
    {condition : Char → Bool}
    {run otherRun following otherFollowing : List Char}
    (satisfied : ∀ character ∈ run, condition character = true)
    (otherSatisfied : ∀ character ∈ otherRun, condition character = true)
    (ended : EndsRun condition following)
    (otherEnded : EndsRun condition otherFollowing) :
    run ++ following = otherRun ++ otherFollowing ↔
      run = otherRun ∧ following = otherFollowing := by
  constructor
  · intro same
    have sameRun : run = otherRun := by
      rw [← takeWhile_run satisfied ended, same,
        takeWhile_run otherSatisfied otherEnded]
    subst sameRun
    exact ⟨rfl, List.append_cancel_left same⟩
  · rintro ⟨rfl, rfl⟩
    rfl

/-- A number is written in digits alone. -/
theorem isDigit_of_mem_repr
    {number : Nat}
    {character : Char}
    (member : character ∈ number.repr.toList) :
    character.isDigit = true := by
  rw [Nat.toList_repr] at member
  exact Nat.isDigit_of_mem_toDigits (by decide) (by decide) member

/-- A number is the value of the numeral that it is written as. -/
theorem decimalValue_repr
    (number : Nat) :
    decimalValue number.repr.toList = number := by
  rw [Nat.toList_repr]
  exact Nat.ofDigitChars_toDigits (by decide) (by decide)

theorem repr_inj
    {number other : Nat} :
    number.repr = other.repr ↔ number = other := by
  constructor
  · intro same
    rw [← decimalValue_repr number, same, decimalValue_repr]
  · exact congrArg Nat.repr

/-- Where there is no number, dumps and listings show a hyphen. -/
theorem repr_ne_hyphen
    (number : Nat) :
    number.repr ≠ "-" := by
  intro same
  have hyphen : '-' ∈ number.repr.toList := by
    rw [same]
    exact List.mem_singleton_self '-'
  cases isDigit_of_mem_repr hyphen

/-! ## Whole lines -/

theorem unlines_cons
    (line : String)
    (lines : List String) :
    unlines (line :: lines) = line ++ "\n" ++ unlines lines := by
  simp [unlines]

/-- The lines of a text in which a line feed ends every line. -/
def wholeLines? (text : String) : Option (List String) :=
  let pieces := text.toList.splitOn '\n'
  if pieces.getLast? = some [] then
    some (pieces.dropLast.map String.ofList)
  else
    none

/-- Whole lines are lines with line feeds between them and nothing at the end. -/
theorem toList_unlines
    (lines : List String) :
    (unlines lines).toList =
      ['\n'].intercalate (lines.map String.toList ++ [[]]) := by
  induction lines with
  | nil =>
      rfl
  | cons line lines inductionHypothesis =>
      rw [unlines_cons, String.toList_append, inductionHypothesis,
        String.toList_append, List.map_cons, List.cons_append,
        List.intercalate_cons_of_ne_nil (by simp)]
      rfl

/-- Behind the last of some whole lines there is nothing left. -/
theorem splitOn_unlines
    {lines : List String}
    (inline : ∀ line ∈ lines, '\n' ∉ line.toList) :
    (unlines lines).toList.splitOn '\n' =
      lines.map String.toList ++ [[]] := by
  rw [toList_unlines]
  refine List.splitOn_intercalate '\n' ?_ (by simp)
  rw [List.forall_mem_append, List.forall_mem_map]
  exact ⟨inline, by simp⟩

/-- Lines without line feeds are read back from the text they make up. -/
theorem wholeLines?_unlines
    {lines : List String}
    (inline : ∀ line ∈ lines, '\n' ∉ line.toList) :
    wholeLines? (unlines lines) = some lines := by
  rw [wholeLines?, splitOn_unlines inline]
  simp [Function.comp_def]

/-- A text is made up of the lines that are read from it. -/
theorem eq_unlines_of_wholeLines?
    {text : String}
    {lines : List String}
    (read : wholeLines? text = some lines) :
    text = unlines lines := by
  obtain ⟨ended, isLines⟩ := Option.ite_none_right_eq_some.mp read
  obtain ⟨pieces, split⟩ := List.getLast?_eq_some_iff.mp ended
  rw [split, List.dropLast_concat] at isLines
  obtain rfl := Option.some.inj isLines
  have whole :
      ['\n'].intercalate (text.toList.splitOn '\n') = text.toList :=
    List.intercalate_splitOn '\n'
  rw [split] at whole
  rw [← String.toList_inj, toList_unlines, ← whole]
  simp [Function.comp_def]

/-- Texts of whole lines are the same if they have the same lines. -/
theorem unlines_inj
    {lines others : List String}
    (inline : ∀ line ∈ lines, '\n' ∉ line.toList)
    (otherInline : ∀ line ∈ others, '\n' ∉ line.toList) :
    unlines lines = unlines others ↔ lines = others := by
  constructor
  · intro same
    have read := wholeLines?_unlines inline
    rw [same, wholeLines?_unlines otherInline] at read
    exact (Option.some.inj read).symm
  · exact congrArg unlines

/-! ## Fields -/

/-- The fields of a line, which single blanks keep apart. -/
def fields (line : String) : List String :=
  (line.toList.splitOn ' ').map String.ofList

/-- A line is made up of its fields. -/
theorem intercalate_fields
    (line : String) :
    " ".intercalate (fields line) = line := by
  have shape : " ".toList = [' '] := rfl
  rw [← String.toList_inj, String.toList_intercalate, shape, fields,
    List.map_map]
  simp [Function.comp_def, List.intercalate_splitOn]

/-- Parts without blanks are the fields of the line they make up. -/
theorem fields_intercalate
    {parts : List String}
    (nonempty : parts ≠ [])
    (unbroken : ∀ part ∈ parts, ' ' ∉ part.toList) :
    fields (" ".intercalate parts) = parts := by
  have shape : " ".toList = [' '] := rfl
  have split :
      (" ".intercalate parts).toList.splitOn ' ' =
        parts.map String.toList := by
    rw [String.toList_intercalate, shape]
    refine List.splitOn_intercalate ' ' ?_ (by simpa using nonempty)
    exact List.forall_mem_map.mpr unbroken
  rw [fields, split]
  simp [Function.comp_def]

/-- A field is not empty and has no white space in it. -/
structure IsField (field : String) : Prop where
  nonempty : field ≠ ""
  notWhite : ∀ character ∈ field.toList, isWhiteSpace character = false

/-- The characters that the program itself uses in fields. -/
def isPlain (character : Char) : Bool :=
  character.isAlphanum || character == '-'

theorem isWhiteSpace_of_isPlain
    {character : Char}
    (plain : isPlain character = true) :
    isWhiteSpace character = false := by
  rw [isPlain, Bool.or_eq_true, beq_iff_eq] at plain
  rcases plain with alphanumeric | rfl
  · rw [Bool.eq_false_iff]
    intro white
    rw [isAlphanum_of_isWhiteSpace white] at alphanumeric
    cases alphanumeric
  · decide

/-- A field of plain characters. -/
structure IsPlainField (field : String) : Prop where
  nonempty : field ≠ ""
  plain : field.toList.all isPlain = true

namespace IsPlainField

instance (field : String) : Decidable (IsPlainField field) :=
  decidable_of_iff (field ≠ "" ∧ field.toList.all isPlain = true)
    ⟨fun both => ⟨both.1, both.2⟩,
      fun isPlainField => ⟨isPlainField.nonempty, isPlainField.plain⟩⟩

theorem isField
    {field : String}
    (isPlainField : IsPlainField field) :
    IsField field := by
  have plain := List.all_eq_true.mp isPlainField.plain
  exact ⟨isPlainField.nonempty, fun character member =>
    isWhiteSpace_of_isPlain (plain character member)⟩

/-- Other characters do not occur in a plain field. -/
theorem notMem
    {field : String}
    {character : Char}
    (isPlainField : IsPlainField field)
    (refused : isPlain character = false) :
    character ∉ field.toList := by
  intro member
  rw [List.all_eq_true.mp isPlainField.plain character member] at refused
  cases refused

theorem repr
    (number : Nat) :
    IsPlainField number.repr := by
  refine ⟨Nat.repr_ne_empty, List.all_eq_true.mpr ?_⟩
  intro character member
  have alphanumeric := isAlphanum_of_isDigit (isDigit_of_mem_repr member)
  rw [isPlain, alphanumeric, Bool.true_or]

/-- A plain field is told from what follows it. -/
theorem append_inj
    {field other : String}
    {following rest : List Char}
    (isPlainField : IsPlainField field)
    (otherPlain : IsPlainField other)
    (ended : EndsRun isPlain following)
    (otherEnded : EndsRun isPlain rest) :
    field.toList ++ following = other.toList ++ rest ↔
      field = other ∧ following = rest := by
  rw [append_run_inj (List.all_eq_true.mp isPlainField.plain)
      (List.all_eq_true.mp otherPlain.plain) ended otherEnded,
    String.toList_inj]

end IsPlainField

/-! ## Lists of texts -/

/-- Reading item by item undoes writing item by item. -/
theorem mapM_eq_some_iff_of_reads
    {Item Value : Type}
    {read : Item → Option Value}
    {write : Value → Item}
    (reads : ∀ {item value}, read item = some value ↔ item = write value)
    {items : List Item}
    {values : List Value} :
    items.mapM read = some values ↔ items = values.map write := by
  induction items generalizing values with
  | nil =>
      cases values <;> simp
  | cons item items inductionHypothesis =>
      rw [List.mapM_cons]
      simp only [bind, pure, Option.bind_eq_some_iff, reads,
        inductionHypothesis, Option.some.injEq]
      constructor
      · rintro ⟨value, rfl, rest, rfl, rfl⟩
        rfl
      · intro written
        obtain ⟨value, rest, rfl, isValue, isRest⟩ :=
          List.map_eq_cons_iff.mp written.symm
        exact ⟨value, isValue.symm, rest, isRest.symm, rfl⟩

end Iloc.Text
