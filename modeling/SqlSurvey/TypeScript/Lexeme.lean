import SqlSurvey.Text.Location
import SqlSurvey.Text.Digits
import SqlSurvey.Text.Word
import SqlSurvey.Sql.Piece

/-!
# Lexemes

The smallest parts of a source file. A scanner says how many characters at the head of a text belong to a
lexeme of its class, if there is one.
-/

namespace SqlSurvey.TypeScript

/-- How many characters at the head of a text belong to a lexeme. -/
abbrev Scanner : Type := List Char → Option Nat

namespace Lexeme

/-- White space between lexemes: blanks except the next-line character, which may stand in an identifier, and the
byte order mark, the zero-width space and the word joiner. -/
def isSpace (c : Char) : Bool :=
  (Text.isBlank c && c != '\u0085') || c == '\ufeff' || c == '\u200b' || c == '\u2060'

/-- A character that ends a line. -/
def isLineEnd (c : Char) : Bool := c == '\n' || c == '\x0d' || c == '\u2028' || c == '\u2029'

/-- How many characters of a comment follow its first one. -/
def commentTail (s : List Char) : Option Nat :=
  match s with
  | '/' :: '/' :: r => some ((r.takeWhile fun c => !isLineEnd c).length + 1)
  | '/' :: '*' :: r => (Sql.cutAfter ['*', '/'] r).map fun p => p.1.length + 1
  | _ => none

/-! ## Words -/

/-- A character that cannot stand in an identifier. -/
def endsIdentifier (c : Char) : Bool :=
  decide (c.toNat < 32) || isSpace c || ":;\x60\"'@#.,|^&<=>+-*/\\%?!~()[]\x7b\x7d".toList.contains c

/-- How many characters at the head of a text may stand in an identifier; an escape may. -/
def identifierLength : List Char → Nat
  | '\\' :: 'u' :: '\x7b' :: r =>
    let digits := (r.takeWhile fun c => (Text.digitValue? 16 c).isSome).length
    if digits = 0 then 0 else digits + 4 + identifierLength (r.drop (digits + 1))
  | '\\' :: 'u' :: _ :: _ :: _ :: _ :: r => identifierLength r + 6
  | c :: r => if endsIdentifier c then 0 else identifierLength r + 1
  | [] => 0
termination_by s => s.length
decreasing_by all_goals simp only [List.length_cons, List.length_drop]; omega

/-- A word: an identifier or a keyword. -/
def word : Scanner := fun s =>
  if s.head?.any Char.isDigit then none
  else match identifierLength s with
    | 0 => none
    | n => some n

/-- The words that cannot be identifiers. -/
def reserved : List String := [
  "break", "case", "catch", "class", "const", "continue", "debugger", "default", "delete", "do", "else",
  "enum", "export", "extends", "finally", "for", "function", "if", "import", "in", "instanceof", "new",
  "return", "switch", "throw", "try", "typeof", "var", "void", "while", "with"]

/-- An identifier, or a word that stands for a value. -/
def identifier : Scanner := fun s =>
  (word s).filter fun n => !reserved.contains (String.ofList (s.take n))

/-- A given word. -/
def keyword (w : List Char) : Scanner := fun s => (word s).filter fun n => s.take n == w

/-- A name with a number sign. -/
def privateName : Scanner := fun s =>
  match s with
  | '#' :: r => (word r).map fun n => n + 1
  | _ => none

/-! ## Marks -/

/-- A given text. -/
def exactly (w : List Char) : Scanner := fun s => if w.isPrefixOf s then some w.length else none

/-- A given text without any of the others directly behind it. -/
def exactlyWithout (w : List Char) (others : List Char) : Scanner := fun s =>
  (exactly w s).filter fun n => !(s.drop n).head?.any others.contains

/-- The operators between two operands, a longer one before its beginnings. -/
def operators : List String := [
  ">>>=", "**=", "<<=", ">>=", "&&=", "||=", "??=", "===", "!==", ">>>", "+=", "-=", "*=", "/=", "%=",
  "&=", "|=", "^=", "==", "!=", "<=", ">=", "<<", ">>", "&&", "||", "??", "**", "=", "<", ">", "&", "|",
  "^", "+", "-", "*", "/", "%"]

/-- An operator between two operands; neither an arrow nor a doubled sign is one. -/
def operator : Scanner := fun s =>
  if (exactly ['=', '>'] s).isSome || (exactly ['+', '+'] s).isSome || (exactly ['-', '-'] s).isSome then none
  else operators.findSome? fun w => exactly w.toList s

/-- The question mark of a choice between two operands. -/
def question : Scanner := fun s =>
  match s with
  | '?' :: '?' :: _ => none
  | '?' :: '.' :: c :: _ => if c.isDigit then some 1 else none
  | '?' :: _ => some 1
  | _ => none

/-- The mark of an access that may be cut short. -/
def optionalChain : Scanner := fun s =>
  match s with
  | '?' :: '.' :: r => if r.head?.any Char.isDigit then none else some 2
  | _ => none

/-! ## Literals -/

/-- Digits with underscores behind the first of them. -/
def digitRun (s : List Char) : Nat :=
  if s.head?.any Char.isDigit then (s.takeWhile fun c => c.isDigit || c == '_').length else 0

/-- An exponent, or nothing. -/
def exponentLength (s : List Char) : Nat :=
  match s with
  | c :: r =>
    if c = 'e' ∨ c = 'E' then
      let sign := if r.head? = some '+' ∨ r.head? = some '-' then 1 else 0
      match digitRun (r.drop sign) with
      | 0 => 0
      | n => 1 + sign + n
    else 0
  | [] => 0

/-- A number. -/
def number : Scanner := fun s =>
  match s with
  | '0' :: x :: r =>
    if "xXoObB".toList.contains x then some ((r.takeWhile fun c => c.isAlphanum || c == '_').length + 2)
    else decimal s
  | _ => decimal s
where
  /-- A decimal number, with a fraction, an exponent and the letter of big integers. -/
  decimal (s : List Char) : Option Nat :=
    let whole := digitRun s
    let fraction :=
      match s.drop whole with
      | '.' :: r => digitRun r + 1
      | _ => 0
    if whole + fraction = 0 ∨ (whole = 0 ∧ fraction = 1) then none
    else
      let mantissa := whole + fraction
      let n := mantissa + exponentLength (s.drop mantissa)
      some (if (s.drop n).head? = some 'n' then n + 1 else n)

/-- How many characters the body of a regular expression and its closing slash take. `inClass` says whether a
class of characters is open, in which a slash does not close. -/
def regexLength (inClass : Bool) : List Char → Option Nat
  | [] => none
  | '\\' :: _ :: r => (regexLength inClass r).map fun n => n + 2
  | c :: r =>
    if isLineEnd c then none
    else if c = '/' ∧ !inClass then some 1
    else
      let inClass := if c = '[' then true else if c = ']' then false else inClass
      (regexLength inClass r).map fun n => n + 1

/-- A regular expression with its flags. -/
def regex : Scanner := fun s =>
  match s with
  | '/' :: '/' :: _ => none
  | '/' :: '*' :: _ => none
  | '/' :: r =>
    (regexLength false r).map fun n => n + 1 + ((r.drop n).takeWhile Char.isAlpha).length
  | _ => none

/-- One character or more up to one that satisfies `stops`. -/
def upTo (stops : Char → Bool) : Scanner := fun s =>
  match (s.takeWhile fun c => !stops c).length with
  | 0 => none
  | n => some n

/-- Characters of a string that stand for themselves. -/
def stringChars (quote : Char) : Scanner :=
  upTo fun c => c == quote || c == '\\' || c == '\n' || c == '\x0d'

/-- Whether a character is a digit of base eight. -/
def isOctal (c : Char) : Bool := (Text.digitValue? 8 c).isSome

/-- A backslash in a string with what belongs to it. -/
def escape : Scanner := fun s =>
  match s with
  | '\\' :: c :: r =>
    let hexDigits := (r.takeWhile fun d => (Text.digitValue? 16 d).isSome).length
    if isOctal c then some (((r.take 2).takeWhile isOctal).length + 2)
    else if c = 'x' then if 2 ≤ hexDigits then some 4 else none
    else if c = 'u' then
      match r with
      | '\x7b' :: t =>
        let digits := (t.takeWhile fun d => (Text.digitValue? 16 d).isSome).length
        if digits ≠ 0 ∧ (t.drop digits).head? = some '\x7d' then some (digits + 4) else none
      | _ => if 4 ≤ hexDigits then some 6 else none
    else
      let goesOn := (c == '\x0d' || c == '?') &&
        r.head?.any fun d => d == '\n' || d == '\u2028' || d == '\u2029'
      some (if goesOn then 3 else 2)
  | _ => none

/-- Characters of a template up to its end, an escape or a substitution. -/
def templateLength : List Char → Nat
  | [] => 0
  | '\x60' :: _ => 0
  | '\\' :: _ => 0
  | '$' :: '\x7b' :: _ => 0
  | _ :: r => templateLength r + 1

/-- Characters of a template that stand for themselves. -/
def templateChars : Scanner := fun s =>
  match templateLength s with
  | 0 => none
  | n => some n

/-- A backslash in a template with the character behind it. -/
def templateEscape : Scanner := fun s =>
  match s with
  | '\\' :: _ :: _ => some 2
  | _ => none

/-- A comment in the manner of markup, to the end of its line. -/
def markupComment : Scanner := fun s =>
  if ['<', '!', '-', '-'].isPrefixOf s || ['-', '-', '>'].isPrefixOf s
    then some (s.takeWhile fun c => !(c == '\n' || c == '\u2028' || c == '\u2029')).length
    else none

/-- The line that names an interpreter, at the beginning of a file. -/
def interpreterLine : Scanner := fun s =>
  match s with
  | '#' :: '!' :: r => some ((r.takeWhile fun c => !isLineEnd c).length + 2)
  | _ => none

/-- The end of the text. -/
def textEnd : Scanner := fun s => if s.isEmpty then some 0 else none

end Lexeme

end SqlSurvey.TypeScript
