import SqlSurvey.Literal.Fragment

/-!
# A grammar of program text with string literals

Program text as a tree: comments, strings in one quote and in three, templates whose substitutions hold
program text again. The tree says which literals the text holds, at any depth, without any scanning;
`Closed` says when a tree is a reading of its own text.
-/

namespace SqlSurvey.Literal

/-- A unit of a string: one character, or a backslash with the character after it. -/
inductive Symbol where
  | char (c : Char)
  | escape (c : Char)
deriving DecidableEq, Repr

/-- The text of a unit. -/
def Symbol.text : Symbol → List Char
  | char c => [c]
  | escape c => ['\\', c]

/-- The text of the units of a string. -/
def symbolsText (body : List Symbol) : List Char := body.flatMap Symbol.text

@[simp] theorem symbolsText_nil : symbolsText [] = [] := rfl

@[simp] theorem symbolsText_cons (u : Symbol) (body : List Symbol) :
    symbolsText (u :: body) = u.text ++ symbolsText body := by
  simp [symbolsText]

mutual

/-- Program text: pieces one after the other. -/
inductive Code where
  | done
  /-- A character that begins neither a literal nor a comment. -/
  | plain (c : Char) (rest : Code)
  /-- Two slashes and what follows them on the line. -/
  | lineComment (body : List Char) (rest : Code)
  | blockComment (body : List Char) (rest : Code)
  /-- A string in three quotes on either side. -/
  | tripled (quote : Char) (body : List Symbol) (rest : Code)
  | quoted (quote : Char) (body : List Symbol) (rest : Code)
  | template (body : Template) (rest : Code)

/-- The inside of a template: units of text, and substitutions with code in them. -/
inductive Template where
  | done
  | symbol (u : Symbol) (rest : Template)
  | substitution (code : Code) (rest : Template)

end

/-- The characters that open a literal. -/
def opensLiteral (c : Char) : Bool := c == '\'' || c == '"' || c == '\x60'

/-- The two characters that strings are quoted with. -/
def isStringQuote (c : Char) : Bool := c == '\'' || c == '"'

/-! ## Texts -/

mutual

/-- The text of a piece of program. -/
def Code.text : Code → List Char
  | .done => []
  | .plain c rest => c :: rest.text
  | .lineComment body rest => ['/', '/'] ++ body ++ rest.text
  | .blockComment body rest => ['/', '*'] ++ body ++ ['*', '/'] ++ rest.text
  | .tripled q body rest => [q, q, q] ++ symbolsText body ++ [q, q, q] ++ rest.text
  | .quoted q body rest => [q] ++ symbolsText body ++ [q] ++ rest.text
  | .template body rest => ['\x60'] ++ body.text ++ ['\x60'] ++ rest.text

/-- The text between the backticks of a template. -/
def Template.text : Template → List Char
  | .done => []
  | .symbol u rest => u.text ++ rest.text
  | .substitution code rest => ['$', '\x7b'] ++ code.text ++ ['\x7d'] ++ rest.text

end

/-! ## Closed texts -/

/-- How many braces are open after a character of code. -/
def braceDepth (c : Char) (depth : Nat) : Nat :=
  if c = '\x7b' then depth + 1 else if c = '\x7d' then depth - 1 else depth

/-- A body in which three quotes in a row begin nowhere, as the three that end it are the first. A backslash
always takes the next character with it. -/
def TripledBody (q : Char) : List Symbol → Prop
  | [] => True
  | .escape _ :: body => TripledBody q body
  | .char c :: body =>
    c ≠ '\\' ∧ ¬ [q, q, q] <+: c :: symbolsText body ++ [q, q, q] ∧ TripledBody q body

/-- A body with neither its quote nor a line feed, save after a backslash. -/
def QuotedBody (q : Char) : List Symbol → Prop
  | [] => True
  | .escape _ :: body => QuotedBody q body
  | .char c :: body => c ≠ q ∧ c ≠ '\\' ∧ c ≠ '\n' ∧ QuotedBody q body

mutual

/-- The tree is a reading of its text. `inside` is `none` outside all substitutions, where the text of the
whole program ends, and otherwise the number of braces open in the substitution whose closing brace
comes next. -/
def Code.Closed : Code → Option Nat → Prop
  | .done, inside => inside = none ∨ inside = some 0
  | .plain c rest, inside =>
    opensLiteral c = false ∧ (c = '/' → rest.text.head? ≠ some '/' ∧ rest.text.head? ≠ some '*') ∧
      (c = '\x7d' → inside ≠ some 0) ∧ rest.Closed (inside.map (braceDepth c))
  | .lineComment body rest, inside =>
    '\n' ∉ body ∧ (rest.text.head? = some '\n' ∨ rest.text = [] ∧ inside = none) ∧ rest.Closed inside
  | .blockComment body rest, inside => ¬ ['*', '/'] <:+: body ++ ['*'] ∧ rest.Closed inside
  | .tripled q body rest, inside => isStringQuote q = true ∧ TripledBody q body ∧ rest.Closed inside
  | .quoted q body rest, inside =>
    isStringQuote q = true ∧ QuotedBody q body ∧ (body = [] → rest.text.head? ≠ some q) ∧
      rest.Closed inside
  | .template body rest, inside => body.Closed ∧ rest.Closed inside

/-- The inside of a template is a reading of its text, with the backtick that ends it after it. -/
def Template.Closed : Template → Prop
  | .done => True
  | .symbol (.escape _) rest => rest.Closed
  | .symbol (.char c) rest =>
    c ≠ '\x60' ∧ c ≠ '\\' ∧ (c = '$' → rest.text.head? ≠ some '\x7b') ∧ rest.Closed
  | .substitution code rest => code.Closed (some 0) ∧ rest.Closed

end

/-! ## Literals in a text -/

/-- A literal at its place in a source. -/
structure Occurrence where
  /-- The text before the literal. -/
  before : List Char
  /-- What stands on either side of the body. -/
  delimiter : List Char
  body : List Char

namespace Occurrence

/-- The text of the literal, delimiters included. -/
def text (o : Occurrence) : List Char := o.delimiter ++ o.body ++ o.delimiter

/-- The fragment that the literal gives if its trimmed body looks like SQL: with the bytes before the literal,
the bytes of the literal, and the line and column at which it begins. -/
def fragment? (o : Occurrence) : Option Fragment :=
  if looksLikeSql (Text.trim o.body) then
    some {
      text := Text.trim o.body
      span := {
        offset := Text.byteLength o.before
        length := Text.byteLength o.text
        line := (Text.positionAfter o.before).line
        column := (Text.positionAfter o.before).column } }
  else none

end Occurrence

mutual

/-- The literals of a piece of program that stands after `before`, in the order in which they begin. -/
def Code.occurrences : Code → List Char → List Occurrence
  | .done, _ => []
  | .plain c rest, before => rest.occurrences (before ++ [c])
  | .lineComment body rest, before => rest.occurrences (before ++ (['/', '/'] ++ body))
  | .blockComment body rest, before =>
    rest.occurrences (before ++ (['/', '*'] ++ body ++ ['*', '/']))
  | .tripled q body rest, before =>
    ⟨before, [q, q, q], symbolsText body⟩ ::
      rest.occurrences (before ++ ([q, q, q] ++ symbolsText body ++ [q, q, q]))
  | .quoted q body rest, before =>
    ⟨before, [q], symbolsText body⟩ :: rest.occurrences (before ++ ([q] ++ symbolsText body ++ [q]))
  | .template body rest, before =>
    ⟨before, ['\x60'], body.text⟩ :: (body.occurrences (before ++ ['\x60']) ++
      rest.occurrences (before ++ (['\x60'] ++ body.text ++ ['\x60'])))

/-- The literals inside the substitutions of a template. -/
def Template.occurrences : Template → List Char → List Occurrence
  | .done, _ => []
  | .symbol u rest, before => rest.occurrences (before ++ u.text)
  | .substitution code rest, before =>
    code.occurrences (before ++ ['$', '\x7b']) ++
      rest.occurrences (before ++ (['$', '\x7b'] ++ code.text ++ ['\x7d']))

end

end SqlSurvey.Literal
