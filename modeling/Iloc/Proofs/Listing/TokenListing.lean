import Iloc.Listing
import Iloc.Proofs.Parser.Wording
import Mathlib.Data.List.Forall2

namespace Iloc

/-!
# Reading token listings

An entry of the token listing shows a category, by number and by name, and a
value.  The values of different categories are drawn from the same numbers, but
the category in front says what a value counts: opcodes, registers, constants
or lexical errors.  What an entry does not show is the line of its token and,
of an unexpected character, which one it is.  Everything else can be read back.
-/

theorem Category.number_inj
    {category other : Category} :
    category.number = other.number ↔ category = other :=
  List.idxOf_inj category.mem_table

theorem Opcode.index_inj
    {opcode other : Opcode} :
    opcode.index = other.index ↔ opcode = other :=
  List.idxOf_inj opcode.mem_table

namespace TokenKind

/-- Two kinds of one category, each with the data that it carries. -/
inductive OneCategory : TokenKind → TokenKind → Prop where
  | opcode
      (first second : Opcode) :
      OneCategory (.opcode first) (.opcode second)
  | constant
      (first second : UInt32) :
      OneCategory (.constant first) (.constant second)
  | register
      (first second : UInt32) :
      OneCategory (.register first) (.register second)
  | error
      (first second : LexicalError) :
      OneCategory (.error first) (.error second)
  /-- Kinds of the other categories carry no data. -/
  | same (kind : TokenKind) : OneCategory kind kind

theorem oneCategory_of_eq
    {kind other : TokenKind}
    (sameCategory : kind.category = other.category) :
    OneCategory kind other := by
  cases kind with
  | opcode first =>
      cases other with
      | opcode second => exact .opcode first second
      | _ => cases sameCategory
  | constant first =>
      cases other with
      | constant second => exact .constant first second
      | _ => cases sameCategory
  | register first =>
      cases other with
      | register second => exact .register first second
      | _ => cases sameCategory
  | error first =>
      cases other with
      | error second => exact .error first second
      | _ => cases sameCategory
  | _ =>
      cases other <;> cases sameCategory
      exact .same _

/-- Kinds that a listing does not tell apart. -/
inductive ListedAlike : TokenKind → TokenKind → Prop where
  | same (kind : TokenKind) : ListedAlike kind kind
  /-- Which character is unexpected is not listed. -/
  | unexpected
      (first second : Char) :
      ListedAlike
        (.error (.unexpectedChar first))
        (.error (.unexpectedChar second))

/-- The listed category and value are the same for kinds that are listed alike. -/
theorem listedAlike_iff
    {kind other : TokenKind} :
    kind.ListedAlike other ↔
      kind.category = other.category ∧ kind.value? = other.value? := by
  constructor
  · rintro (_ | _) <;> exact ⟨rfl, rfl⟩
  · rintro ⟨sameCategory, sameValue⟩
    cases oneCategory_of_eq sameCategory with
    | opcode first second =>
        obtain rfl := Opcode.index_inj.mp (Option.some.inj sameValue)
        exact .same _
    | constant first second =>
        obtain rfl := UInt32.toNat_inj.mp (Option.some.inj sameValue)
        exact .same _
    | register first second =>
        obtain rfl := UInt32.toNat_inj.mp (Option.some.inj sameValue)
        exact .same _
    | error first second =>
        have sameCode : first.code = second.code :=
          Option.some.inj sameValue
        cases first <;> cases second <;> cases sameCode <;> constructor
    | same =>
        exact .same kind

/-- The text that a listing shows for a value. -/
def valueText : Option Nat → String
  | some value => value.repr
  | none => "-"

theorem valueText_inj
    {value? other? : Option Nat} :
    valueText value? = valueText other? ↔ value? = other? := by
  cases value? with
  | none =>
      cases other? with
      | none => exact iff_of_true rfl rfl
      | some other =>
          exact iff_of_false (Text.repr_ne_hyphen other).symm nofun
  | some value =>
      cases other? with
      | none => exact iff_of_false (Text.repr_ne_hyphen value) nofun
      | some other =>
          rw [valueText, valueText, Text.repr_inj, Option.some.injEq]

end TokenKind

namespace Token

/-- The characters of an entry, part by part. -/
theorem toList_text
    (token : Token) :
    token.text.toList =
      token.kind.category.number.repr.toList ++
        ' ' :: (token.kind.category.name.toList ++
          ',' :: ' ' :: (TokenKind.valueText token.kind.value?).toList) := by
  rw [text]
  cases token.kind.value? <;>
    simp [TokenKind.valueText, toString, String.toList_append]

theorem oneLine_text
    (token : Token) :
    Text.OneLine token.text := by
  cases value : token.kind.value? <;> simp +decide [text, value]

/-- Entries are the same exactly for kinds that are listed alike. -/
theorem text_eq_iff
    {token other : Token} :
    token.text = other.text ↔ token.kind.ListedAlike other.kind := by
  have blank (rest : List Char) :
      Text.EndsRun Text.isPlain (' ' :: rest) :=
    Text.endsRun_cons (by decide) rest
  rw [← String.toList_inj, toList_text, toList_text,
    Text.IsPlainField.append_inj (.repr _) (.repr _) (blank _) (blank _),
    Text.repr_inj, Category.number_inj, TokenKind.listedAlike_iff]
  refine and_congr_right fun sameCategory => ?_
  rw [sameCategory, List.cons.injEq, List.append_cancel_left_eq,
    List.cons.injEq, List.cons.injEq, String.toList_inj,
    TokenKind.valueText_inj]
  simp

end Token

/--
A token listing has one line for every token, and tells the kinds of the tokens.
Two lists of tokens have the same listing exactly if they are of one length and
their kinds are the same at every place, except that one unexpected character
looks like any other.  So an entry of a listing is never that of two tokens with
different opcodes, registers, constants, punctuation or error codes.
-/
theorem tokenListing_determines_kinds
    (tokens others : List Token) :
    Text.wholeLines? (tokenListing tokens) =
        some (tokens.map Token.text) ∧
      (tokenListing tokens = tokenListing others ↔
        List.Forall₂
          (fun token other => token.kind.ListedAlike other.kind)
          tokens others) ∧
      ∀ token other : Token,
        token.text = other.text ↔ token.kind.ListedAlike other.kind := by
  have inline (tokens : List Token) :
      ∀ line ∈ tokens.map Token.text, '\n' ∉ line.toList := by
    rw [List.forall_mem_map]
    exact fun token _ => token.oneLine_text.lineFeed_notMem
  refine ⟨Text.wholeLines?_unlines (inline tokens), ?_,
    fun _ _ => Token.text_eq_iff⟩
  rw [tokenListing, tokenListing,
    Text.unlines_inj (inline tokens) (inline others),
    ← List.forall₂_eq_eq_eq, List.forall₂_map_left_iff,
    List.forall₂_map_right_iff]
  simp only [Token.text_eq_iff]

/-- An opcode, a constant and an error that all have the value 1. -/
example :
    tokenListing [⟨.opcode .loadI, 1⟩, ⟨.constant 1, 1⟩,
        ⟨.error .unknownWord, 2⟩] =
      "1 LOADI, 1\n5 CONST, 1\n12 ERROR, 1\n" := by
  decide +kernel

end Iloc
