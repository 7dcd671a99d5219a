import SqlCommand.CharSet.Alphabetic
import SqlCommand.CharSet.Numeric

/-!
# Words

A word starts with an alphabetic character or an underscore and goes on with alphabetic and numeric
characters and underscores. Words are compared without regard to the case of ASCII letters.
-/

namespace SqlCommand

/-- Letters, and what Unicode counts as alphabetic beyond ASCII. -/
def isAlphabetic (c : Char) : Bool :=
  if c.toNat < 128 then c.isAlpha else CharSet.alphabetic.contains c

/-- Digits, and the numeric characters beyond ASCII. -/
def isNumeric (c : Char) : Bool :=
  if c.toNat < 128 then c.isDigit else CharSet.numeric.contains c

/-- What a word may start with. -/
def isWordStart (c : Char) : Bool :=
  isAlphabetic c || c == '_'

/-- What a word may go on with. -/
def isWordChar (c : Char) : Bool :=
  isAlphabetic c || isNumeric c || c == '_'

theorem isWordChar_of_isWordStart {c : Char} (h : isWordStart c = true) :
    isWordChar c = true := by
  simp only [isWordStart, isWordChar, Bool.or_eq_true] at *
  rcases h with h | h <;> simp [h]

/-- Two texts are the same word when they differ at most in the case of ASCII letters. -/
def sameWord (a b : List Char) : Bool :=
  a.map Char.toUpper == b.map Char.toUpper

end SqlCommand
