import SqlSurvey.Text.Location

/-!
# String literals in program text

A scanner reads program text one character at a time and records the string literals it meets: templates in
backticks, strings in three quotes, strings in one quote. Comments are passed over. A template may
hold substitutions, and the code of a substitution may hold literals again, so the scanner keeps a
stack of the templates that are open around it.
-/

namespace SqlSurvey

/-- A recorded literal, by byte offsets into the source. -/
structure Literal where
  /-- Where the literal begins, delimiter included. -/
  start : Nat
  /-- Where the literal ends, delimiter included. -/
  stop : Nat
  /-- Where its body begins. -/
  bodyStart : Nat
  /-- Where its body ends. -/
  bodyStop : Nat
deriving DecidableEq, Repr

namespace Literal

/-- What the scanner is in the middle of. The offsets are those at which a literal began. -/
inductive Mode where
  /-- Code. -/
  | code
  /-- Code, after a slash that may begin a comment. -/
  | slash
  | lineComment
  | blockComment
  /-- A block comment, after a star that may end it. -/
  | blockCommentStar
  /-- One quote has been read. -/
  | oneQuote (quote : Char) (start : Nat)
  /-- Two quotes have been read: the empty string, or the beginning of three. -/
  | twoQuotes (quote : Char) (start : Nat)
  /-- Inside a string in one quote. -/
  | quoted (quote : Char) (start : Nat)
  | quotedEscape (quote : Char) (start : Nat)
  /-- Inside a string in three quotes, after `closing` quotes in a row. -/
  | tripled (quote : Char) (start : Nat) (closing : Nat)
  | tripledEscape (quote : Char) (start : Nat)
  /-- Inside a template. -/
  | template (start : Nat)
  | templateEscape (start : Nat)
  /-- Inside a template, after a dollar sign that may begin a substitution. -/
  | templateDollar (start : Nat)
deriving DecidableEq, Repr

/-- A template that is open around the code of a substitution. -/
structure Frame where
  /-- Where the template began. -/
  start : Nat
  /-- How many braces are open inside the substitution. -/
  depth : Nat
deriving DecidableEq, Repr

/-- The state of the scanner. -/
structure State where
  /-- Bytes read so far. -/
  offset : Nat
  mode : Mode
  /-- The templates around the present place, the innermost first. -/
  frames : List Frame
  /-- The literals that have ended, the last one first. -/
  found : List Literal
deriving DecidableEq, Repr

namespace State

/-- The state before any character. -/
def initial : State := ⟨0, .code, [], []⟩

/-- The state with another mode. -/
def enter (s : State) (mode : Mode) : State := { s with mode := mode }

/-- The state back in code after a literal that ends at `stop`, with delimiters of `width` bytes. -/
def record (s : State) (start width stop : Nat) : State :=
  { s with
    mode := .code
    found := ⟨start, stop, start + width, stop - width⟩ :: s.found }

/-- One character of code. -/
def stepCode (s : State) (c : Char) : State :=
  if c = '\x60' then s.enter (.template s.offset)
  else if c = '"' ∨ c = '\'' then s.enter (.oneQuote c s.offset)
  else if c = '/' then s.enter .slash
  else match s.frames with
    | [] => s.enter .code
    | f :: fs =>
      if c = '\x7b' then { s with mode := .code, frames := ⟨f.start, f.depth + 1⟩ :: fs }
      else if c = '\x7d' then
        match f.depth with
        | 0 => { s with mode := .template f.start, frames := fs }
        | d + 1 => { s with mode := .code, frames := ⟨f.start, d⟩ :: fs }
      else s.enter .code

/-- One character of a template, outside its substitutions. -/
def stepTemplate (s : State) (start : Nat) (c : Char) : State :=
  if c = '\\' then s.enter (.templateEscape start)
  else if c = '\x60' then s.record start 1 (s.offset + 1)
  else if c = '$' then s.enter (.templateDollar start)
  else s.enter (.template start)

/-- One character of a string in one quote. A line feed abandons the string. -/
def stepQuoted (s : State) (quote : Char) (start : Nat) (c : Char) : State :=
  if c = '\\' then s.enter (.quotedEscape quote start)
  else if c = '\n' then s.enter .code
  else if c = quote then s.record start 1 (s.offset + 1)
  else s.enter (.quoted quote start)

/-- One character of a string in three quotes. -/
def stepTripled (s : State) (quote : Char) (start closing : Nat) (c : Char) : State :=
  if c = '\\' then s.enter (.tripledEscape quote start)
  else if c = quote then
    if closing = 2 then s.record start 3 (s.offset + 1) else s.enter (.tripled quote start (closing + 1))
  else s.enter (.tripled quote start 0)

/-- The state after one character, before that character is counted. -/
def react (s : State) (c : Char) : State :=
  match s.mode with
  | .code => s.stepCode c
  | .slash =>
    if c = '/' then s.enter .lineComment
    else if c = '*' then s.enter .blockComment
    else s.stepCode c
  | .lineComment => if c = '\n' then s.enter .code else s
  | .blockComment => if c = '*' then s.enter .blockCommentStar else s
  | .blockCommentStar =>
    if c = '/' then s.enter .code else if c = '*' then s else s.enter .blockComment
  | .oneQuote q start => if c = q then s.enter (.twoQuotes q start) else s.stepQuoted q start c
  | .twoQuotes q start =>
    if c = q then s.enter (.tripled q start 0) else (s.record start 1 s.offset).stepCode c
  | .quoted q start => s.stepQuoted q start c
  | .quotedEscape q start => s.enter (.quoted q start)
  | .tripled q start closing => s.stepTripled q start closing c
  | .tripledEscape q start => s.enter (.tripled q start 0)
  | .template start => s.stepTemplate start c
  | .templateEscape start => s.enter (.template start)
  | .templateDollar start =>
    if c = '\x7b' then { s with mode := .code, frames := ⟨start, 0⟩ :: s.frames }
    else s.stepTemplate start c

/-- The state after one more character. -/
def step (s : State) (c : Char) : State :=
  let t := s.react c
  { t with offset := s.offset + c.utf8Size }

/-- The state after a text. -/
def run (s : State) (text : List Char) : State := text.foldl step s

/-- The literals recorded when the text ends here, in the order in which they ended. A literal that is
still open is dropped; two quotes at the very end are the empty string. -/
def literals (s : State) : List Literal :=
  match s.mode with
  | .twoQuotes _ start => (s.record start 1 s.offset).found.reverse
  | _ => s.found.reverse

/-- Reading a text in two parts is reading it at once. -/
theorem run_append (s : State) (a b : List Char) : s.run (a ++ b) = (s.run a).run b :=
  List.foldl_append ..

/-- The scanner counts bytes. -/
theorem offset_run (s : State) (text : List Char) :
    (s.run text).offset = s.offset + Text.byteLength text := by
  induction text generalizing s with
  | nil => rfl
  | cons c r ih =>
    rw [show s.run (c :: r) = (s.step c).run r from rfl, ih, Text.byteLength_cons]
    simp [step, Nat.add_assoc]

end State

/-- Puts a literal before the first one that begins later. -/
def insertByStart (l : Literal) : List Literal → List Literal
  | [] => [l]
  | m :: ms => if l.start < m.start then l :: m :: ms else m :: insertByStart l ms

/-- The string literals of a source text, in the order in which they begin. -/
def allIn (source : List Char) : List Literal :=
  (State.initial.run source).literals.foldl (fun ls l => insertByStart l ls) []

end Literal

end SqlSurvey
