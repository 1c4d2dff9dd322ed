/-!
# JSON values

Values of the JSON data format, and the text form that a document is written in: two spaces of
indentation, one item to a line, empty containers closed at once. Objects keep the order of their
fields.
-/

namespace SqlSurvey

/-- A JSON value. -/
inductive Json where
  | null
  | bool (b : Bool)
  /-- A natural number, written without sign, fraction and exponent. -/
  | natural (n : Nat)
  /-- Any other number, as it is written. -/
  | number (text : String)
  | string (s : String)
  | array (items : List Json)
  | object (fields : List (String × Json))
deriving Inhabited, Repr

namespace Json

/-! ## Strings -/

/-- The hexadecimal digit of a value below sixteen. -/
def hexDigit (n : Nat) : Char := (Nat.digitChar n)

/-- The text of a character inside a string: quotes, backslashes and control characters are escaped, all else
stands for itself. -/
def escapeChar (c : Char) : List Char :=
  if c = '"' then ['\\', '"']
  else if c = '\\' then ['\\', '\\']
  else if c = '\n' then ['\\', 'n']
  else if c = '\x0d' then ['\\', 'r']
  else if c = '\t' then ['\\', 't']
  else if c = '\x08' then ['\\', 'b']
  else if c = '\x0c' then ['\\', 'f']
  else if c.toNat < 32 then
    ['\\', 'u', '0', '0', hexDigit (c.toNat / 16), hexDigit (c.toNat % 16)]
  else [c]

/-- The text of a string, in quotes. -/
def quote (s : List Char) : List Char := '"' :: s.flatMap escapeChar ++ ['"']

/-! ## Documents -/

/-- A new line with indentation for a depth. -/
def newline (depth : Nat) : List Char := '\n' :: List.replicate (2 * depth) ' '

/-- The decimal digits of a number. -/
def decimal (n : Nat) : List Char := Nat.toDigits 10 n

mutual

/-- The text of a value that stands at a depth of containers. -/
def renderAt (depth : Nat) : Json → List Char
  | null => ['n', 'u', 'l', 'l']
  | bool true => ['t', 'r', 'u', 'e']
  | bool false => ['f', 'a', 'l', 's', 'e']
  | natural n => decimal n
  | number text => text.toList
  | string s => quote s.toList
  | array [] => ['[', ']']
  | array (i :: is) =>
    '[' :: newline (depth + 1) ++ renderAt (depth + 1) i ++ renderItems (depth + 1) is ++
      newline depth ++ [']']
  | object [] => ['\x7b', '\x7d']
  | object ((k, v) :: fs) =>
    '\x7b' :: newline (depth + 1) ++ quote k.toList ++ [':', ' '] ++ renderAt (depth + 1) v ++
      renderFields (depth + 1) fs ++ newline depth ++ ['\x7d']

/-- The text of the items after the first. -/
def renderItems (depth : Nat) : List Json → List Char
  | [] => []
  | i :: is => ',' :: newline depth ++ renderAt depth i ++ renderItems depth is

/-- The text of the fields after the first. -/
def renderFields (depth : Nat) : List (String × Json) → List Char
  | [] => []
  | (k, v) :: fs =>
    ',' :: newline depth ++ quote k.toList ++ [':', ' '] ++ renderAt depth v ++ renderFields depth fs

end

/-- The text of a document. -/
def render (j : Json) : List Char := renderAt 0 j

/-! ## Making values -/

/-- A string, or null if there is none. -/
def ofOption (s : Option String) : Json :=
  match s with
  | some s => string s
  | none => null

/-- Strings in an array. -/
def strings (ss : List String) : Json := array (ss.map string)

end Json

end SqlSurvey
