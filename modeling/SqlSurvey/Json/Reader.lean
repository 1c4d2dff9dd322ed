import SqlSurvey.Text.Digits
import SqlSurvey.Json.Basic

/-!
# Reading JSON

The reader accepts the JSON grammar: a document is one value with white space around it. A number is natural if
it has no sign, fraction or exponent and fits into 64 bits.
-/

namespace SqlSurvey.Json

/-- The white space of the format. -/
def isSpace (c : Char) : Bool := c == ' ' || c == '\n' || c == '\t' || c == '\x0d'

/-- The text without the white space it begins with. -/
def skipSpace (s : List Char) : List Char := s.dropWhile isSpace

/-! ## Strings -/

/-- The value of four hexadecimal digits. -/
def unit? (a b c d : Char) : Option Nat :=
  Text.digitsValue? 16 [a, b, c, d]

/-- The character that two surrogates stand for together. -/
def pair? (high low : Nat) : Option Char :=
  if 0xD800 ≤ high ∧ high < 0xDC00 ∧ 0xDC00 ≤ low ∧ low < 0xE000 then
    some (Char.ofNat (0x10000 + (high - 0xD800) * 0x400 + (low - 0xDC00)))
  else none

/-- The character that one unit stands for, unless it is a surrogate. -/
def single? (n : Nat) : Option Char :=
  if n < 0xD800 ∨ 0xE000 ≤ n then some (Char.ofNat n) else none

/-- The character that a backslash and `c` stand for. -/
def escaped? (c : Char) : Option Char :=
  match c with
  | '"' => some '"'
  | '\\' => some '\\'
  | '/' => some '/'
  | 'b' => some '\x08'
  | 'f' => some '\x0c'
  | 'n' => some '\n'
  | 'r' => some '\x0d'
  | 't' => some '\t'
  | _ => none

/-- A string after its opening quote, and the text after its closing quote. -/
def readString : List Char → Option (List Char × List Char)
  | '"' :: r => some ([], r)
  | '\\' :: 'u' :: a :: b :: c :: d :: '\\' :: 'u' :: e :: f :: g :: h :: r => do
    let high ← unit? a b c d
    match single? high with
    | some x =>
      (readString ('\\' :: 'u' :: e :: f :: g :: h :: r)).map fun p => (x :: p.1, p.2)
    | none =>
      let x ← pair? high (← unit? e f g h)
      (readString r).map fun p => (x :: p.1, p.2)
  | '\\' :: 'u' :: a :: b :: c :: d :: r => do
    let x ← single? (← unit? a b c d)
    (readString r).map fun p => (x :: p.1, p.2)
  | '\\' :: c :: r => do
    let x ← escaped? c
    (readString r).map fun p => (x :: p.1, p.2)
  | c :: r =>
    if c.toNat < 32 then none else (readString r).map fun p => (c :: p.1, p.2)
  | [] => none

/-! ## Numbers -/

/-- The value of decimal digits. -/
def decimalValue (digits : List Char) : Nat :=
  digits.foldl (fun n c => n * 10 + (c.toNat - '0'.toNat)) 0

/-- The digits at the head of a text, at least one, and the text after them. -/
def digits? (s : List Char) : Option (List Char × List Char) :=
  let ds := s.takeWhile Char.isDigit
  if ds.isEmpty then none else some (ds, s.dropWhile Char.isDigit)

/-- The digits before a fraction: no zero before another digit. -/
def wholeDigits? (s : List Char) : Option (List Char × List Char) :=
  (digits? s).bind fun p => if p.1.head? = some '0' ∧ p.1.length ≠ 1 then none else some p

/-- A fraction if there is one, and the text after it. -/
def fraction? (s : List Char) : Option (List Char × List Char) :=
  match s with
  | '.' :: r => (digits? r).map fun p => ('.' :: p.1, p.2)
  | _ => some ([], s)

/-- An exponent if there is one, and the text after it. -/
def exponent? (s : List Char) : Option (List Char × List Char) :=
  match s with
  | [] => some ([], [])
  | c :: r =>
    if c = 'e' ∨ c = 'E' then
      match r with
      | '+' :: t => (digits? t).map fun p => (c :: '+' :: p.1, p.2)
      | '-' :: t => (digits? t).map fun p => (c :: '-' :: p.1, p.2)
      | _ => (digits? r).map fun p => (c :: p.1, p.2)
    else some ([], c :: r)

/-- The first number that no longer fits into 64 bits. -/
def naturalEnd : Nat := Nat.pow 2 64

/-- A number, and the text after it. -/
def readNumber (s : List Char) : Option (Json × List Char) := do
  let sign := s.takeWhile fun c => c == '-'
  if 1 < sign.length then none
  let (whole, afterWhole) ← wholeDigits? (s.drop sign.length)
  let (fraction, afterFraction) ← fraction? afterWhole
  let (exponent, rest) ← exponent? afterFraction
  let text := sign ++ whole ++ fraction ++ exponent
  if text == whole && decide (decimalValue whole < naturalEnd) then
    return (natural (decimalValue whole), rest)
  else return (number (String.ofList text), rest)

/-! ## Values -/

mutual

/-- A value at the head of a text, white space before it skipped, and the text after it. The first argument
bounds how deep values may be nested and how many a container may hold. -/
def readValue : Nat → List Char → Option (Json × List Char)
  | 0, _ => none
  | fuel + 1, s =>
    match skipSpace s with
    | 'n' :: 'u' :: 'l' :: 'l' :: r => some (null, r)
    | 't' :: 'r' :: 'u' :: 'e' :: r => some (bool true, r)
    | 'f' :: 'a' :: 'l' :: 's' :: 'e' :: r => some (bool false, r)
    | '"' :: r => (readString r).map fun p => (string (String.ofList p.1), p.2)
    | '[' :: r =>
      match skipSpace r with
      | ']' :: t => some (array [], t)
      | _ => (readItems fuel r).map fun p => (array p.1, p.2)
    | '\x7b' :: r =>
      match skipSpace r with
      | '\x7d' :: t => some (object [], t)
      | _ => (readFields fuel r).map fun p => (object p.1, p.2)
    | t => readNumber t

/-- The items of an array that has at least one, and the text after its bracket. -/
def readItems : Nat → List Char → Option (List Json × List Char)
  | 0, _ => none
  | fuel + 1, s =>
    match readValue fuel s with
    | none => none
    | some (item, r) =>
      match skipSpace r with
      | ',' :: t => (readItems fuel t).map fun p => (item :: p.1, p.2)
      | ']' :: t => some ([item], t)
      | _ => none

/-- The fields of an object that has at least one, and the text after its brace. -/
def readFields : Nat → List Char → Option (List (String × Json) × List Char)
  | 0, _ => none
  | fuel + 1, s =>
    match skipSpace s with
    | '"' :: r =>
      match readString r with
      | none => none
      | some (key, r) =>
        match skipSpace r with
        | ':' :: r =>
          match readValue fuel r with
          | none => none
          | some (value, r) =>
            let field := (String.ofList key, value)
            match skipSpace r with
            | ',' :: t => (readFields fuel t).map fun p => (field :: p.1, p.2)
            | '\x7d' :: t => some ([field], t)
            | _ => none
        | _ => none
    | _ => none

end

/-- The value that a document holds. -/
def parse? (s : List Char) : Option Json :=
  match readValue (2 * s.length + 1) s with
  | some (j, rest) => if (skipSpace rest).isEmpty then some j else none
  | none => none

end SqlSurvey.Json
