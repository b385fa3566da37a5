namespace Iloc.Text

/-!
# White space

The characters with the Unicode property White_Space, as inclusive ranges of
code points.  Lookalikes without the property, such as the zero width space
U+200B and the byte order mark U+FEFF, are not blank.
-/

/-- The ranges of the White_Space property, in ascending order. -/
def whiteSpaceRanges : List (Nat × Nat) :=
  [ (0x09, 0x0D),
    (0x20, 0x20),
    (0x85, 0x85),
    (0xA0, 0xA0),
    (0x1680, 0x1680),
    (0x2000, 0x200A),
    (0x2028, 0x2029),
    (0x202F, 0x202F),
    (0x205F, 0x205F),
    (0x3000, 0x3000) ]

/-- Whether a character has the White_Space property. -/
def isWhiteSpace (character : Char) : Bool :=
  whiteSpaceRanges.any fun (first, last) =>
    first ≤ character.toNat && character.toNat ≤ last

/-- A blank separates tokens of one line: white space other than a line feed. -/
def isBlank (character : Char) : Bool :=
  isWhiteSpace character && character != '\n'

/-- The line feed is white space, yet it is never blank: it ends a line. -/
theorem isBlank_lineFeed :
    isWhiteSpace '\n' = true ∧ isBlank '\n' = false := by
  decide

/-- A blank is white space. -/
theorem isWhiteSpace_of_isBlank
    {character : Char}
    (blank : isBlank character = true) :
    isWhiteSpace character = true := by
  simp only [isBlank, Bool.and_eq_true] at blank
  exact blank.1

end Iloc.Text
