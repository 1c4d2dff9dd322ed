/-!
# Locations

Where a stretch of text stands: its byte offset and length in UTF-8, and the line and column of its
first character, both counted from one. Only a line feed begins a new line.
-/

namespace SqlSurvey.Text

/-- The number of bytes of a text in UTF-8. -/
def byteLength : List Char → Nat
  | [] => 0
  | c :: r => c.utf8Size + byteLength r

@[simp] theorem byteLength_nil : byteLength [] = 0 := rfl

@[simp] theorem byteLength_cons (c : Char) (s : List Char) :
    byteLength (c :: s) = c.utf8Size + byteLength s := rfl

@[simp] theorem byteLength_append (s t : List Char) :
    byteLength (s ++ t) = byteLength s + byteLength t := by
  induction s with
  | nil => simp
  | cons c s ih => simp [ih, Nat.add_assoc]

/-- The characters that begin before a byte offset. -/
def before (s : List Char) (offset : Nat) : List Char :=
  match s with
  | [] => []
  | c :: r => if offset = 0 then [] else c :: before r (offset - c.utf8Size)

/-- The characters that begin at a byte offset or after it. -/
def after (s : List Char) (offset : Nat) : List Char :=
  match s with
  | [] => []
  | c :: r => if offset = 0 then c :: r else after r (offset - c.utf8Size)

/-- The text between two byte offsets. -/
def slice (s : List Char) (start stop : Nat) : List Char := before (after s start) (stop - start)

theorem before_append_after (s : List Char) (offset : Nat) :
    before s offset ++ after s offset = s := by
  induction s generalizing offset with
  | nil => rfl
  | cons c r ih =>
    by_cases h : offset = 0
    · simp [before, after, h]
    · simp [before, after, h, ih]

/-- A line and a column, both counted from one. -/
structure Position where
  line : Nat
  column : Nat
deriving DecidableEq, Repr

/-- The position of the first character of a text. -/
def Position.start : Position := ⟨1, 1⟩

/-- The position after one more character. -/
def Position.advance (p : Position) (c : Char) : Position :=
  if c = '\n' then ⟨p.line + 1, 1⟩ else ⟨p.line, p.column + 1⟩

/-- The position after a text, with columns counted in characters. -/
def positionAfter (s : List Char) : Position := s.foldl Position.advance Position.start

/-- A stretch of a source text. -/
structure Span where
  /-- Bytes before the stretch. -/
  offset : Nat
  /-- Bytes of the stretch. -/
  length : Nat
  line : Nat
  column : Nat
deriving DecidableEq, Repr

/-- The span of `length` bytes from `offset`. An offset inside a character or past the end is located at the
next place where a character begins or could begin. -/
def Span.locate (source : List Char) (offset length : Nat) : Span :=
  let p := positionAfter (before source offset)
  { offset, length, line := p.line, column := p.column }

/-- The position after one more character, with columns counted in bytes. -/
def Position.advanceBytes (p : Position) (c : Char) : Position :=
  if c = '\n' then ⟨p.line + 1, 1⟩ else ⟨p.line, p.column + c.utf8Size⟩

/-- The span between two byte offsets, with the column counted in bytes. -/
def Span.inBytes (source : List Char) (start stop : Nat) : Span :=
  let p := (before source start).foldl Position.advanceBytes Position.start
  { offset := start, length := stop - start, line := p.line, column := p.column }

end SqlSurvey.Text
