import SqlSurvey.Toml.Basic
import SqlSurvey.Toml.Scalar

/-!
# Reading TOML

The reader accepts the grammar of the format, version 1.0, and checks while it reads that no key
or table is defined twice. Paths and nesting may be 79 deep.
-/

namespace SqlSurvey.Toml

/-- White space within a line. -/
def isSpace (c : Char) : Bool := c == ' ' || c == '\t'

/-- The text without the white space it begins with. -/
def skipSpace (s : List Char) : List Char := s.dropWhile isSpace

/-- The text after the end of a line. -/
def newline? : List Char → Option (List Char)
  | '\n' :: r => some r
  | '\x0d' :: '\n' :: r => some r
  | _ => none

/-- A character that may stand in a comment. -/
def isCommentChar (c : Char) : Bool := c == '\t' || (decide (32 ≤ c.toNat) && c.toNat != 127)

/-- The text after a comment, if there is one. -/
def skipComment : List Char → List Char
  | '#' :: r => r.dropWhile isCommentChar
  | s => s

/-- The text after the rest of a line, which holds nothing but a comment. -/
def lineEnd? (s : List Char) : Option (List Char) :=
  match skipComment (skipSpace s) with
  | [] => some []
  | r => newline? r

/-- The text after white space, line ends and comments. The number bounds how many of them there are. -/
def skipLines : Nat → List Char → List Char
  | 0, s => s
  | fuel + 1, s =>
    let r := skipSpace s
    match newline? (skipComment r) with
    | some t => skipLines fuel t
    | none => r

/-! ## Strings -/

/-- A character of a string in single quotes. -/
def isLiteralChar (c : Char) : Bool := isCommentChar c && c != '\''

/-- A character of a string in double quotes that stands for itself. -/
def isBasicChar (c : Char) : Bool := isCommentChar c && c != '"' && c != '\\'

/-- An escape after its backslash, and the text after it. -/
def readEscape (s : List Char) : Option (Char × List Char) :=
  match s with
  | 'b' :: r => some ('\x08', r)
  | 'f' :: r => some ('\x0c', r)
  | 'n' :: r => some ('\n', r)
  | 'r' :: r => some ('\x0d', r)
  | 't' :: r => some ('\t', r)
  | '"' :: r => some ('"', r)
  | '\\' :: r => some ('\\', r)
  | 'u' :: r => numbered 4 r
  | 'U' :: r => numbered 8 r
  | _ => none
where
  /-- The character of a number of hexadecimal digits. -/
  numbered (count : Nat) (r : List Char) : Option (Char × List Char) :=
    let digits := (r.take count).takeWhile fun c => (Text.digitValue? 16 c).isSome
    if digits.length = count then (Text.codePoint? digits).map fun c => (c, r.drop count) else none

theorem length_readEscape {s r : List Char} {c : Char} (h : readEscape s = some (c, r)) :
    r.length < s.length := by
  simp only [readEscape] at h
  split at h <;> simp_all [readEscape.numbered]
  all_goals grind

/-- A string in double quotes after its opening quote, and the text after its closing one. -/
def readBasic (s : List Char) : Option (List Char × List Char) :=
  match s with
  | [] => none
  | '"' :: r => some ([], r)
  | '\\' :: r =>
    match _hEscape : readEscape r with
    | none => none
    | some (c, t) => (readBasic t).map fun p => (c :: p.1, p.2)
  | c :: r => if isBasicChar c then (readBasic r).map fun p => (c :: p.1, p.2) else none
termination_by s.length
decreasing_by
  · have := length_readEscape _hEscape
    simp only [List.length_cons]; omega
  · simp

/-- A string in single quotes after its opening quote, and the text after its closing one. -/
def readLiteral (s : List Char) : Option (List Char × List Char) :=
  let body := s.takeWhile isLiteralChar
  match s.drop body.length with
  | '\'' :: r => some (body, r)
  | _ => none

/-- The text after a backslash that ends a line, all blanks and line ends skipped. -/
def continued? (s : List Char) : Option (List Char) :=
  (newline? (skipSpace s)).map fun r => skipBlanks r.length r
where
  /-- The text after blanks and line ends. -/
  skipBlanks : Nat → List Char → List Char
    | 0, s => s
    | fuel + 1, s =>
      match newline? (skipSpace s) with
      | some r => skipBlanks fuel r
      | none => skipSpace s

/-- A string in three quotes after its opening ones and the text after its closing ones, of which up to two more
belong to the string. `isLiteral` says that there are no escapes. The number bounds its length. -/
def readLong (quote : Char) (isLiteral : Bool) : Nat → List Char → Option (List Char × List Char)
  | 0, _ => none
  | fuel + 1, s =>
    match s with
    | [] => none
    | c :: r =>
      if c = quote then
        let count := (s.takeWhile fun d => d == quote).length
        if count < 3 then (readLong quote isLiteral fuel r).map fun p => (c :: p.1, p.2)
        else
          let extra := min (count - 3) 2
          some (List.replicate extra quote, s.drop (extra + 3))
      else if c = '\\' ∧ !isLiteral then
        match continued? r with
        | some t => readLong quote isLiteral fuel t
        | none =>
          match readEscape r with
          | none => none
          | some (d, t) => (readLong quote isLiteral fuel t).map fun p => (d :: p.1, p.2)
      else
        match newline? s with
        | some t => (readLong quote isLiteral fuel t).map fun p => ('\n' :: p.1, p.2)
        | none =>
          if isCommentChar c then (readLong quote isLiteral fuel r).map fun p => (c :: p.1, p.2)
          else none

/-- A string of any kind, and the text after it. -/
def readString (s : List Char) : Option (List Char × List Char) :=
  match s with
  | '"' :: '"' :: '"' :: r => readLong '"' false (r.length + 1) ((newline? r).getD r)
  | '\'' :: '\'' :: '\'' :: r => readLong '\'' true (r.length + 1) ((newline? r).getD r)
  | '"' :: r => readBasic r
  | '\'' :: r => readLiteral r
  | _ => none

/-! ## Keys -/

/-- A character of a key without quotes. -/
def isBareChar (c : Char) : Bool := c.isAlphanum || c == '-' || c == '_'

/-- One part of a key, and the text after it. -/
def readKeyPart (s : List Char) : Option (List Char × List Char) :=
  match s with
  | '"' :: r => readBasic r
  | '\'' :: r => readLiteral r
  | _ =>
    let bare := s.takeWhile isBareChar
    if bare.isEmpty then none else some (bare, s.drop bare.length)

/-- The parts of a key with dots between them, and the text after it and the white space behind it. -/
def readKeyParts : Nat → List Char → Option (List (List Char) × List Char)
  | 0, _ => none
  | fuel + 1, s =>
    match readKeyPart (skipSpace s) with
    | none => none
    | some (part, r) =>
      match skipSpace r with
      | '.' :: t => (readKeyParts fuel t).map fun p => (part :: p.1, p.2)
      | t => some ([part], t)

/-- How deep paths and nested values must not be. -/
def depthLimit : Nat := 80

/-- A key, and the text after it and the white space behind it. -/
def readKey (s : List Char) : Option (List (List Char) × List Char) :=
  readKeyParts (depthLimit - 1) s

/-! ## Values -/

/-- A character that ends a scalar. -/
def endsScalar (c : Char) : Bool :=
  isSpace c || c == '\n' || c == '\x0d' || c == '#' || c == ',' || c == ']' || c == '\x7d'

/-- A scalar that is not a string, and the text after it. A time may follow a date after a blank. -/
def readScalar (s : List Char) : Option (Toml × List Char) :=
  let text := s.takeWhile fun c => !endsScalar c
  let rest := s.drop text.length
  let time := rest.tail.takeWhile fun c => !endsScalar c
  if isDate text && rest.head? == some ' ' && isZonedTime time then
    some (scalar (text ++ ' ' :: time), rest.tail.drop time.length)
  else if isScalar text then some (scalar text, rest)
  else none

mutual

/-- A value and the text after it. The first number bounds the length of the reading, the second one says how deep
values may still be nested. -/
def readValue : Nat → Nat → List Char → Option (Toml × List Char)
  | 0, _, _ => none
  | fuel + 1, depth, s =>
    match s with
    | '"' :: _ => (readString s).map fun p => (string p.1, p.2)
    | '\'' :: _ => (readString s).map fun p => (string p.1, p.2)
    | '[' :: r =>
      if depth = 0 then none
      else (readItems fuel (depth - 1) r).map fun p => (array p.1, p.2)
    | '\x7b' :: r =>
      if depth = 0 then none
      else
        match skipSpace r with
        | '\x7d' :: t => some (table .inline [], t)
        | _ => (readPairs fuel (depth - 1) [] r).map fun p => (table .inline p.1, p.2)
    | _ => readScalar s

/-- The items of an array, and the text after its bracket. -/
def readItems : Nat → Nat → List Char → Option (List Toml × List Char)
  | 0, _, _ => none
  | fuel + 1, depth, s =>
    match skipLines s.length s with
    | ']' :: r => some ([], r)
    | t =>
      match readValue fuel depth t with
      | none => none
      | some (item, r) =>
        match skipLines r.length r with
        | ',' :: u => (readItems fuel depth u).map fun p => (item :: p.1, p.2)
        | ']' :: u => some ([item], u)
        | _ => none

/-- The pairs of a table in braces, at least one, added to the table so far, and the text after the brace. -/
def readPairs : Nat → Nat → Entries → List Char → Option (Entries × List Char)
  | 0, _, _, _ => none
  | fuel + 1, depth, entries, s =>
    match readKey s with
    | none => none
    | some (path, r) =>
      match r with
      | '=' :: r =>
        match readValue fuel depth (skipSpace r) with
        | none => none
        | some (value, r) =>
          match define path value .inline entries with
          | none => none
          | some entries =>
            match skipSpace r with
            | ',' :: t => readPairs fuel depth entries t
            | '\x7d' :: t => some (entries, t)
            | _ => none
      | _ => none

end

/-! ## Documents -/

/-- A document while it is read: the table that is open, and everything so far. -/
structure Draft where
  opened : List (List Char)
  document : Entries

/-- The path in a header between its brackets, and the text after the line. -/
def readHeader (closing : List Char) (s : List Char) : Option (List (List Char) × List Char) := do
  let (path, r) ← readKey s
  let rest ← lineEnd? (← closing.isPrefixOf? r)
  return (path, rest)

/-- One line: a blank one, a comment, a header or a pair; a value may go on for several lines. -/
def readLine (d : Draft) (s : List Char) : Option (Draft × List Char) :=
  match lineEnd? s with
  | some r => some (d, r)
  | none =>
    match skipSpace s with
    | '[' :: '[' :: r => do
      let (path, rest) ← readHeader [']', ']'] r
      let document ← openElement path d.document
      return (⟨path, document⟩, rest)
    | '[' :: r => do
      let (path, rest) ← readHeader [']'] r
      let document ← openTable path d.document
      return (⟨path, document⟩, rest)
    | t => do
      let (path, r) ← readKey t
      let r ← ['='].isPrefixOf? r
      let (value, r) ← readValue (2 * s.length) (depthLimit - 1) (skipSpace r)
      let rest ← lineEnd? r
      let document ← defineUnder d.opened path value d.document
      return (⟨d.opened, document⟩, rest)

/-- The document that lines make. The number bounds how many there are. -/
def readLines : Nat → Draft → List Char → Option Entries
  | _, d, [] => some d.document
  | 0, _, _ => none
  | fuel + 1, d, s =>
    match readLine d s with
    | none => none
    | some (d, r) => readLines fuel d r

/-- The table that a document holds. A byte order mark before it does not count. -/
def parse? (s : List Char) : Option Entries :=
  let text := if s.head? = some '\ufeff' then s.tail else s
  readLines (text.length + 1) ⟨[], []⟩ text

end SqlSurvey.Toml
