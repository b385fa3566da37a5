namespace Iloc.Text

/-!
# Bounded decimal numerals

A numeral is a run of ASCII digits with any number of leading zeros.  It is
read by value: what makes a numeral too large is its value alone, never its
number of digits.
-/

/-- The base-ten value of a run of digits. -/
def decimalValue (digits : List Char) : Nat :=
  Nat.ofDigitChars 10 digits 0

/-- The value of a numeral that fits into 32 bits, and nothing otherwise. -/
def word32? (digits : List Char) : Option UInt32 :=
  if fits : decimalValue digits < UInt32.size then
    some (UInt32.ofNatLT (decimalValue digits) fits)
  else
    none

/-- A numeral is read exactly when its value is that of the word read. -/
theorem word32?_eq_some_iff
    {digits : List Char}
    {value : UInt32} :
    word32? digits = some value ↔ decimalValue digits = value.toNat := by
  unfold word32?
  split
  · rename_i fits
    rw [Option.some.injEq, ← UInt32.toNat_inj]
    rfl
  · rename_i large
    constructor
    · intro absurdity
      cases absurdity
    · intro equality
      have bound : value.toNat < UInt32.size := value.toNat_lt
      omega

/-- Reading back the digits of a word returns the word. -/
theorem word32?_toDigits
    (value : UInt32) :
    word32? (Nat.toDigits 10 value.toNat) = some value := by
  rw [word32?_eq_some_iff]
  exact Nat.ofDigitChars_toDigits (by decide) (by decide)

end Iloc.Text
