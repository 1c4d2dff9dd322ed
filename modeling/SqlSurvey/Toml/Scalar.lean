import SqlSurvey.Text.Digits

/-!
# Scalars of TOML

Which texts are numbers, truth values, dates and times. Integers must fit into 64 bits with a sign, a number with
a fraction or exponent must not be larger than the largest double.
-/

namespace SqlSurvey.Toml

/-- A text without the sign it may begin with. -/
def unsigned (s : List Char) : List Char :=
  match s with
  | '+' :: r => r
  | '-' :: r => r
  | _ => s

/-- Whether a text consists of digits of a base, at least one, with single underscores between them. -/
def isDigits (base : Nat) (s : List Char) : Bool :=
  (s.splitOnP fun c => c == '_').all fun part =>
    !part.isEmpty && part.all fun c => (Text.digitValue? base c).isSome

/-- The value of digits with underscores between them. -/
def digitsValue (base : Nat) (s : List Char) : Nat :=
  (Text.digitsValue? base (s.filter fun c => c != '_')).getD 0

/-- Whether a text consists of decimal digits that do not begin with a zero too many. -/
def isWhole (s : List Char) : Bool := isDigits 10 s && (s.head? != some '0' || s.length == 1)

/-- The first integer that does not fit into 64 bits with a sign. -/
def integerEnd : Nat := Nat.pow 2 63

/-- An integer, in decimal digits or in those of another base. -/
def isInteger (s : List Char) : Bool :=
  match s with
  | '0' :: 'x' :: r => isDigits 16 r && decide (digitsValue 16 r < integerEnd)
  | '0' :: 'o' :: r => isDigits 8 r && decide (digitsValue 8 r < integerEnd)
  | '0' :: 'b' :: r => isDigits 2 r && decide (digitsValue 2 r < integerEnd)
  | _ =>
    let limit := if s.head? = some '-' then integerEnd + 1 else integerEnd
    isWhole (unsigned s) && decide (digitsValue 10 (unsigned s) < limit)

/-- From this number on, the nearest double is infinite. -/
def doubleEnd : Nat := Nat.pow 2 1024 - Nat.pow 2 970

/-- How many decimal digits `doubleEnd` has. -/
def doubleEndDigits : Nat := 309

/-- Whether the number with the decimal digits `whole` before the point and `fraction` behind it, times a power of
ten, is too large for a double. -/
def isTooLarge (whole fraction : List Char) (exponent : Int) : Bool :=
  let digits := (whole ++ fraction).filter fun c => c != '_'
  let significant := digits.dropWhile fun c => c == '0'
  let point : Int := exponent - (fraction.filter fun c => c != '_').length
  let size : Int := significant.length + point
  if significant.isEmpty || decide (size < doubleEndDigits) then false
  else if decide ((doubleEndDigits : Int) < size) then true
  else
    let value := digitsValue 10 significant
    decide (doubleEnd * Nat.pow 10 (-point).toNat ≤ value * Nat.pow 10 point.toNat)

/-- A number with a fraction, an exponent or both; also the infinities and what is not a number. -/
def isFloat (s : List Char) : Bool :=
  let body := unsigned s
  if body == "inf".toList || body == "nan".toList then true
  else
    let isExponentMark (c : Char) : Bool := c == 'e' || c == 'E'
    let mantissa := body.takeWhile fun c => !isExponentMark c
    let exponent := body.drop (mantissa.length + 1)
    let whole := mantissa.takeWhile fun c => c != '.'
    let fraction := mantissa.drop (whole.length + 1)
    let hasFraction := whole.length != mantissa.length
    let hasExponent := mantissa.length != body.length
    let power : Int :=
      let n : Int := digitsValue 10 (unsigned exponent)
      if exponent.head? = some '-' then -n else n
    isWhole whole && (hasFraction || hasExponent) && (!hasFraction || isDigits 10 fraction) &&
      (!hasExponent || isDigits 10 (unsigned exponent)) &&
      (s.head? == some '-' || !isTooLarge whole fraction power)

/-! ## Dates and times -/

/-- The value of a number of decimal digits, if a text is one. -/
def fixed? (count : Nat) (s : List Char) : Option Nat :=
  if s.length = count then Text.digitsValue? 10 s else none

/-- How many days a month has. -/
def daysIn (year month : Nat) : Nat :=
  if month = 2 then (if year % 4 = 0 ∧ (year % 100 ≠ 0 ∨ year % 400 = 0) then 29 else 28)
  else if month = 4 ∨ month = 6 ∨ month = 9 ∨ month = 11 then 30
  else 31

/-- A day of the calendar, `1979-05-27`. -/
def isDate (s : List Char) : Bool :=
  match s.splitOnP (fun c => c == '-') with
  | [y, m, d] =>
    match fixed? 4 y, fixed? 2 m, fixed? 2 d with
    | some year, some month, some day =>
      decide (1 ≤ month ∧ month ≤ 12 ∧ 1 ≤ day ∧ day ≤ daysIn year month)
    | _, _, _ => false
  | _ => false

/-- Whether a text is a number of two digits up to a limit. -/
def isTwoDigits (limit : Nat) (s : List Char) : Bool := (fixed? 2 s).any fun n => decide (n ≤ limit)

/-- A time of the day, `07:32:00.5`, in which a minute may have a leap second. -/
def isTime (s : List Char) : Bool :=
  let clock := s.takeWhile fun c => c != '.'
  let fraction := s.drop (clock.length + 1)
  let hasFraction := clock.length != s.length
  match clock.splitOnP (fun c => c == ':') with
  | [h, m, sec] =>
    isTwoDigits 23 h && isTwoDigits 59 m && isTwoDigits 60 sec &&
      (!hasFraction || (!fraction.isEmpty && fraction.all Char.isDigit))
  | _ => false

/-- The distance of a time zone: `Z` or `+01:00`. -/
def isOffset (s : List Char) : Bool :=
  match s with
  | ['Z'] => true
  | ['z'] => true
  | sign :: r =>
    (sign == '+' || sign == '-') &&
      match r.splitOnP (fun c => c == ':') with
      | [h, m] => isTwoDigits 23 h && isTwoDigits 59 m
      | _ => false
  | [] => false

/-- A time of the day, perhaps with a time zone. -/
def isZonedTime (s : List Char) : Bool :=
  let time := s.takeWhile fun c => c.isDigit || c == ':' || c == '.'
  let offset := s.drop time.length
  isTime time && (offset.isEmpty || isOffset offset)

/-- A day, a time, or both with a `T` between them. -/
def isDateTime (s : List Char) : Bool :=
  isDate s || isTime s ||
    (isDate (s.take 10) && ((s.drop 10).head? == some 'T' || (s.drop 10).head? == some 't') &&
      isZonedTime (s.drop 11))

/-- Any scalar that is not a string. -/
def isScalar (s : List Char) : Bool :=
  s == "true".toList || s == "false".toList || isInteger s || isFloat s || isDateTime s

end SqlSurvey.Toml
