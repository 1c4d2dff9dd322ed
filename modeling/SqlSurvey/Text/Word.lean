import SqlSurvey.Text.LetterRanges
import SqlSurvey.Text.Blank

/-!
# Words

The character classes that identifiers are read with: letters, numbers, and the characters of a
word (letters, marks, decimal digits, connector punctuation, joiners). ASCII is decided directly, the
rest by the tables.
-/

namespace SqlSurvey.Text

/-- Below this code point a character is ASCII. -/
def asciiEnd : Nat := 128

/-- The property Alphabetic. -/
def isAlphabetic (c : Char) : Bool :=
  c.isAlpha || (decide (asciiEnd ≤ c.toNat) && inRanges alphabeticRanges c.toNat)

/-- A number of any category. -/
def isNumeric (c : Char) : Bool :=
  c.isDigit || (decide (asciiEnd ≤ c.toNat) && inRanges numericRanges c.toNat)

/-- A letter or a number. -/
def isAlphanumeric (c : Char) : Bool := isAlphabetic c || isNumeric c

/-- A character that may stand in a word. -/
def isWordChar (c : Char) : Bool :=
  c.isAlphanum || c == '_' ||
    (decide (asciiEnd ≤ c.toNat) &&
      (inRanges alphabeticRanges c.toNat || inRanges wordMarkRanges c.toNat))

/-- A letter is a word character. -/
theorem isWordChar_of_isAlphabetic {c : Char} (h : isAlphabetic c = true) : isWordChar c = true := by
  simp only [isAlphabetic, Bool.or_eq_true, Bool.and_eq_true] at h
  rcases h with h | ⟨hn, hr⟩
  · simp [isWordChar, Char.isAlphanum, h]
  · simp [isWordChar, hn, hr]

/-! ## Letters compared without regard to case -/

/-- The lower-case ASCII letter of an upper-case one; every other character is itself. -/
def lowerAscii (c : Char) : Char := c.toLower

/-- Two texts agree up to the case of ASCII letters. -/
def sameAscii (s t : List Char) : Bool := s.map lowerAscii == t.map lowerAscii

/-- A character stands for a letter in either case. Case folding gives two ASCII letters a third form: the
long s for `s`, the kelvin sign for `k`. -/
def sameLetter (letter c : Char) : Bool :=
  lowerAscii c == lowerAscii letter ||
    (lowerAscii letter == 's' && c == '\u017f') || (lowerAscii letter == 'k' && c == '\u212a')

end SqlSurvey.Text
