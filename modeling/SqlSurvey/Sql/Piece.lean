/-!
# Lexical pieces of SQL text

SQL text falls into pieces: quoted runs, comments, and single characters that are neither. Which characters
open a quoted run is a parameter. A quoted run lasts to the next quote of its kind, so that a doubled
quote inside it makes two runs side by side; a run or block comment that is not closed lasts to the
end of the text, and a line comment stops before its line feed.
-/

namespace SqlSurvey.Sql

/-- A text that goes through the first occurrence of `mark`, and the text that follows it. -/
def cutAfter (mark : List Char) : List Char → Option (List Char × List Char)
  | [] => none
  | c :: r =>
    if mark.isPrefixOf (c :: r) then some (mark, (c :: r).drop mark.length)
    else (cutAfter mark r).map fun p => (c :: p.1, p.2)

/-- A lexical piece; its text includes the delimiters. -/
inductive Piece where
  | plain (c : Char)
  | quoted (text : List Char)
  | comment (text : List Char)
deriving DecidableEq, Repr

namespace Piece

/-- The text of a piece. -/
def text : Piece → List Char
  | plain c => [c]
  | quoted t => t
  | comment t => t

/-- Whether a piece is a comment. -/
def isComment : Piece → Bool
  | comment _ => true
  | _ => false

/-- The opening of a line comment after its first character. -/
def lineCommentOpens (c : Char) (r : List Char) : Bool := c == '-' && r.head? == some '-'

/-- The opening of a block comment after its first character. -/
def blockCommentOpens (c : Char) (r : List Char) : Bool := c == '/' && r.head? == some '*'

/-- The first piece of the text `c :: r`, and the text that follows it. -/
def first (isQuote : Char → Bool) (c : Char) (r : List Char) : Piece × List Char :=
  if isQuote c then
    match cutAfter [c] r with
    | some (inner, rest) => (quoted (c :: inner), rest)
    | none => (quoted (c :: r), [])
  else if lineCommentOpens c r then
    (comment (c :: r.takeWhile fun d => d != '\n'), r.dropWhile fun d => d != '\n')
  else if blockCommentOpens c r then
    match cutAfter ['*', '/'] r.tail with
    | some (inner, rest) => (comment (c :: '*' :: inner), rest)
    | none => (comment (c :: r), [])
  else (plain c, r)

end Piece

/-! ## Nothing is lost -/

theorem cutAfter_append {mark s : List Char} {p : List Char × List Char} (h : cutAfter mark s = some p) :
    p.1 ++ p.2 = s := by
  induction s generalizing p with
  | nil => simp [cutAfter] at h
  | cons c r ih =>
    by_cases hm : mark.isPrefixOf (c :: r) = true
    · simp only [cutAfter, hm, if_true, Option.some.injEq] at h
      subst h
      obtain ⟨t, ht⟩ := List.isPrefixOf_iff_prefix.1 hm
      simp [← ht]
    · simp only [cutAfter, hm, Bool.false_eq_true, if_false, Option.map_eq_some_iff] at h
      obtain ⟨q, hq, rfl⟩ := h
      simp [ih hq]

namespace Piece

/-- The first piece and what follows it make up the text. -/
theorem first_append (isQuote : Char → Bool) (c : Char) (r : List Char) :
    (first isQuote c r).1.text ++ (first isQuote c r).2 = c :: r := by
  unfold first
  split
  · cases h : cutAfter [c] r with
    | none => simp [text]
    | some p => simp [text, cutAfter_append h]
  · split
    · simp [text]
    · split
      · rename_i hb
        -- the star that is cut off with the tail is put back
        have hr : '*' :: r.tail = r := by
          cases r with
          | nil => simp [blockCommentOpens] at hb
          | cons d t =>
            simp only [blockCommentOpens, List.head?_cons, Bool.and_eq_true, beq_iff_eq,
              Option.some.injEq] at hb
            simp [hb.2]
        cases h : cutAfter ['*', '/'] r.tail with
        | none => simp [text]
        | some p => simp [text, cutAfter_append h, hr]
      · simp [text]

/-- The first piece is not empty. -/
theorem text_first_ne_nil (isQuote : Char → Bool) (c : Char) (r : List Char) :
    (first isQuote c r).1.text ≠ [] := by
  unfold first
  repeat' split
  all_goals simp [text]

/-- The text after the first piece is shorter than the whole. -/
theorem length_first_lt (isQuote : Char → Bool) (c : Char) (r : List Char) :
    (first isQuote c r).2.length < (c :: r).length := by
  have hSplit := congrArg List.length (first_append isQuote c r)
  have hText := List.length_pos_iff.2 (text_first_ne_nil isQuote c r)
  rw [List.length_append] at hSplit
  omega

end Piece

/-- The pieces of a text, in order. -/
def pieces (isQuote : Char → Bool) (s : List Char) : List Piece :=
  match s with
  | [] => []
  | c :: r => (Piece.first isQuote c r).1 :: pieces isQuote (Piece.first isQuote c r).2
termination_by s.length
decreasing_by exact Piece.length_first_lt isQuote c r

/-- The text that pieces make up. -/
def textOf (ps : List Piece) : List Char := ps.flatMap Piece.text

@[simp] theorem textOf_nil : textOf [] = [] := rfl

@[simp] theorem textOf_cons (p : Piece) (ps : List Piece) : textOf (p :: ps) = p.text ++ textOf ps := by
  simp [textOf]

@[simp] theorem textOf_append (ps qs : List Piece) : textOf (ps ++ qs) = textOf ps ++ textOf qs := by
  simp [textOf]

@[simp] theorem pieces_nil (isQuote : Char → Bool) : pieces isQuote [] = [] := by
  rw [pieces]

/-- The pieces of a text make up the text. -/
theorem textOf_pieces (isQuote : Char → Bool) (s : List Char) : textOf (pieces isQuote s) = s := by
  fun_induction pieces isQuote s with
  | case1 => rfl
  | case2 c r ih => rw [textOf_cons, ih, Piece.first_append]

/-- In the body of a definition only the single quote opens a quoted run. -/
def isSingleQuote (c : Char) : Bool := c == '\''

/-- Between statements both kinds of quote open a quoted run. -/
def isAnyQuote (c : Char) : Bool := c == '\'' || c == '"'

/-- The text with each comment outside the single-quoted runs replaced by one space. -/
def withoutComments (s : List Char) : List Char :=
  (pieces isSingleQuote s).flatMap fun p => if p.isComment then [' '] else p.text

end SqlSurvey.Sql
