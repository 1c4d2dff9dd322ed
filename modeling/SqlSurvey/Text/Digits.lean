/-!
# Numbers in digits

Reading numbers in a base up to sixteen, with letters of either case for the digits above nine.
-/

namespace SqlSurvey.Text

/-- The value of a digit in a base up to sixteen. -/
def digitValue? (base : Nat) (c : Char) : Option Nat :=
  let value? :=
    if c.isDigit then some (c.toNat - '0'.toNat)
    else if 'a' ≤ c ∧ c ≤ 'f' then some (c.toNat - 'a'.toNat + 10)
    else if 'A' ≤ c ∧ c ≤ 'F' then some (c.toNat - 'A'.toNat + 10)
    else none
  value?.filter fun v => decide (v < base)

/-- The value of digits, the first of which is the most significant. -/
def digitsValue? (base : Nat) (digits : List Char) : Option Nat :=
  digits.foldlM (fun n c => (digitValue? base c).map fun v => n * base + v) 0

/-- The value of a number of at least one digit, with a plus sign or none before it. -/
def numberValue? (base : Nat) (s : List Char) : Option Nat :=
  let digits := if s.head? = some '+' then s.tail else s
  if digits.isEmpty then none else digitsValue? base digits

/-- Whether a number is the code point of a character. -/
def isCodePoint (n : Nat) : Bool := decide (n.isValidChar)

/-- The character that a number in base sixteen is the code point of. -/
def codePoint? (s : List Char) : Option Char :=
  (numberValue? 16 s).bind fun n => if isCodePoint n then some (Char.ofNat n) else none

end SqlSurvey.Text
