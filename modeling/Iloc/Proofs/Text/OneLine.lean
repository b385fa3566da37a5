import Iloc.Proofs.Text.UniqueReading
import Iloc.Text.ControlSequence
import Mathlib.Data.String.Basic

namespace Iloc.Text

/-!
# Texts of one line

A text is cut into lines at its line feeds, so a text without line feed is one
line.  What the program words is more than that: the only white space in it is
the blank between words.  Texts put together from such texts are such texts,
and so are their printed parts.
-/

/-- What is left of a text is cut at its line feeds. -/
theorem splitOnAux_lineFeed
    (before word rest : List Char)
    (done : List String) :
    (String.ofList (before ++ word ++ rest)).splitOnAux "\n"
        ⟨String.utf8Len before⟩
        ⟨String.utf8Len before + String.utf8Len word⟩ 0 done =
      done.reverse ++
        (List.splitOnPPrepend (· == '\n') rest word.reverse).map
          String.ofList := by
  induction rest generalizing before word done with
  | nil =>
      have cut := String.extract_of_valid before word []
      have atEnd :
          String.Pos.Raw.atEnd
              (String.ofList (before ++ word ++ []))
              ⟨String.utf8Len before + String.utf8Len word⟩ = true := by
        simp [-String.ofList_append]
      rw [String.splitOnAux, if_pos atEnd, cut]
      simp
  | cons first rest inductionHypothesis =>
      have cut := String.extract_of_valid before word (first :: rest)
      have isFirst := String.get_of_valid (before ++ word) (first :: rest)
      have behind := String.next_of_valid (before ++ word) first rest
      have inside :
          ¬ String.Pos.Raw.atEnd
              (String.ofList (before ++ word ++ first :: rest))
              ⟨String.utf8Len before + String.utf8Len word⟩ = true := by
        have positive := first.utf8Size_pos
        simp [-String.ofList_append]
        omega
      have separator :
          String.Pos.Raw.get "\n" 0 = '\n' ∧
            String.Pos.Raw.next "\n" 0 = ⟨1⟩ ∧
            String.Pos.Raw.atEnd "\n" ⟨1⟩ = true := by
        decide
      obtain ⟨isLineFeed, lineFeedBehind, lineFeedEnds⟩ := separator
      rw [String.utf8Len_append] at isFirst behind
      rw [List.headD_cons] at isFirst
      rw [String.splitOnAux, if_neg inside]
      dsimp only
      rw [isFirst, behind, isLineFeed, lineFeedBehind,
        if_pos lineFeedEnds]
      by_cases ends : first = '\n'
      · subst ends
        have next :=
          inductionHypothesis (before ++ word ++ ['\n']) []
            (String.ofList word :: done)
        have unread :
            String.Pos.Raw.unoffsetBy
                ⟨String.utf8Len before + String.utf8Len word +
                  Char.utf8Size '\n'⟩ ⟨1⟩ =
              ⟨String.utf8Len before + String.utf8Len word⟩ := rfl
        rw [if_pos (beq_self_eq_true _), unread, cut,
          List.splitOnPPrepend_cons_eq_if, if_pos (beq_self_eq_true _)]
        simpa [-String.ofList_append, String.utf8Len_append,
          List.append_assoc, Nat.add_assoc] using next
      · have next := inductionHypothesis before (word ++ [first]) done
        have unread :
            String.Pos.Raw.unoffsetBy
                ⟨String.utf8Len before + String.utf8Len word⟩ 0 =
              ⟨String.utf8Len before + String.utf8Len word⟩ := rfl
        have differs : ¬ (first == '\n') = true := by
          simpa using ends
        rw [if_neg differs, unread, behind,
          List.splitOnPPrepend_cons_eq_if, if_neg differs]
        simpa [-String.ofList_append, String.utf8Len_append,
          List.append_assoc, Nat.add_assoc] using next

/-- A text is cut at its line feeds. -/
theorem splitOn_lineFeed
    (text : String) :
    text.splitOn "\n" =
      (text.toList.splitOn '\n').map String.ofList := by
  have whole := splitOnAux_lineFeed [] [] text.toList []
  simpa [String.splitOn, List.splitOn] using whole

/-- A text without line feed is one line. -/
theorem splitOn_of_lineFeed_notMem
    {text : String}
    (inline : '\n' ∉ text.toList) :
    text.splitOn "\n" = [text] := by
  rw [splitOn_lineFeed, List.splitOn_eq_singleton inline]
  simp

/-- The only white space in a text is the blank U+0020. -/
def OneLine (text : String) : Prop :=
  ∀ character ∈ text.toList,
    isWhiteSpace character = true → character = ' '

namespace OneLine

-- Named in full, for the instance search may go through all characters.
instance (text : String) : Decidable (OneLine text) :=
  List.decidableBAll
    (fun character => isWhiteSpace character = true → character = ' ')
    text.toList

@[simp]
theorem append_iff
    {first second : String} :
    OneLine (first ++ second) ↔ OneLine first ∧ OneLine second := by
  simp only [OneLine, String.toList_append, List.forall_mem_append]

theorem intercalate
    {separator : String}
    {texts : List String}
    (separated : OneLine separator)
    (each : ∀ text ∈ texts, OneLine text) :
    OneLine (separator.intercalate texts) := by
  induction texts with
  | nil =>
      exact List.forall_mem_nil _
  | cons first rest inductionHypothesis =>
      obtain ⟨head, tail⟩ := List.forall_mem_cons.mp each
      cases rest with
      | nil =>
          rw [String.intercalate_singleton]
          exact head
      | cons second others =>
          rw [String.intercalate_cons_cons, append_iff, append_iff]
          exact ⟨⟨head, separated⟩, inductionHypothesis tail⟩

/-- A field is one line, for it has no white space at all. -/
theorem of_isField
    {field : String}
    (isField : IsField field) :
    OneLine field := by
  intro character member white
  rw [isField.notWhite character member] at white
  cases white

@[simp]
theorem repr
    (number : Nat) :
    OneLine number.repr :=
  .of_isField (IsPlainField.repr number).isField

@[simp]
theorem toString_iff
    {text : String} :
    OneLine (toString text) ↔ OneLine text :=
  Iff.rfl

@[simp]
theorem toString_word
    (word : UInt32) :
    OneLine (toString word) :=
  .repr word.toNat

/-- A character is one line unless it is white space other than the blank. -/
@[simp]
theorem toString_char
    {character : Char} :
    OneLine (toString character) ↔
      (isWhiteSpace character = true → character = ' ') := by
  have single : (toString character).toList = [character] :=
    String.toList_singleton character
  rw [OneLine, single, List.forall_mem_singleton]

/-- Such a text has no line feed. -/
theorem lineFeed_notMem
    {text : String}
    (oneLine : OneLine text) :
    '\n' ∉ text.toList := by
  intro member
  have isSpace := oneLine '\n' member isBlank_lineFeed.1
  cases isSpace

theorem splitOn
    {text : String}
    (oneLine : OneLine text) :
    text.splitOn "\n" = [text] :=
  splitOn_of_lineFeed_notMem oneLine.lineFeed_notMem

end OneLine

/-- Printing only leaves characters out. -/
theorem printed_sublist
    (reading : Reading)
    (characters : List Char) :
    (reading.printed characters).Sublist characters := by
  induction characters generalizing reading with
  | nil =>
      exact .refl []
  | cons character characters inductionHypothesis =>
      rw [Reading.printed]
      dsimp only
      split
      · exact .cons_cons character (inductionHypothesis _)
      · exact .cons character (inductionHypothesis _)

/-- The printed part of a text has no other white space than the text. -/
theorem OneLine.printedPart
    {text : String}
    (oneLine : OneLine text) :
    OneLine (Text.printedPart text) := by
  intro character member
  rw [Text.printedPart, String.toList_ofList] at member
  exact oneLine character ((printed_sublist _ _).subset member)

end Iloc.Text
