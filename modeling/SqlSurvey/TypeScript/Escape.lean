import SqlSurvey.TypeScript.Lexeme

/-!
# Escapes in strings

What a string in quotes stands for: every character stands for itself, up to escape sequences, which begin with a
backslash. An escape for a number that is no character's stands for itself as it is written.
-/

namespace SqlSurvey.TypeScript.Escape

/-- The letters with a meaning of their own behind a backslash. -/
def letters : List (Char × Char) := [
  ('n', '\n'), ('t', '\t'), ('r', '\x0d'), ('b', '\x08'), ('f', '\x0c'), ('v', '\x0b')]

/-- A number in base sixteen without the braces around it. -/
def withoutBraces (s : List Char) : List Char :=
  let isOpen (c : Char) : Bool := c == '\x7b'
  let isClose (c : Char) : Bool := c == '\x7d'
  ((s.dropWhile isOpen).reverse.dropWhile isClose).reverse

/-- The character of a number, or the whole escape if there is none. -/
def numbered (digits written : List Char) : List Char :=
  match Text.codePoint? digits with
  | some c => [c]
  | none => written

/-- What an escape stands for, given what follows its backslash. -/
def value (tail : List Char) : List Char :=
  match tail with
  | [] => ['\\']
  | c :: r =>
    if Lexeme.isLineEnd c then []
    else if c = '0' ∧ r.isEmpty then ['\x00']
    else if c = 'x' then numbered r ('\\' :: tail)
    else if c = 'u' then numbered (withoutBraces r) ('\\' :: tail)
    else [((letters.find? fun l => l.1 == c).map Prod.snd).getD c]

/-- What the text between the quotes of a string stands for. A backslash that begins no escape stands for
itself. -/
def decode : List Char → List Char
  | [] => []
  | c :: r =>
    match Lexeme.escape (c :: r) with
    | none => c :: decode r
    | some n => value (r.take (n - 1)) ++ decode (r.drop (n - 1))
termination_by s => s.length
decreasing_by all_goals simp only [List.length_cons, List.length_drop]; omega

end SqlSurvey.TypeScript.Escape
