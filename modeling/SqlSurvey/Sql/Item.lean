import SqlSurvey.Text.Blank
import SqlSurvey.Sql.Piece

/-!
# Parenthesised bodies and their items

The body of a definition is the text up to the parenthesis that closes it; its items are what stands
between the commas outside all parentheses. Single-quoted runs and comments hide both from view.
-/

namespace SqlSurvey.Sql

/-- How deep in parentheses the text is after a piece; a parenthesis too many changes nothing. -/
def Piece.depthAfter (depth : Nat) : Piece → Nat
  | .plain '(' => depth + 1
  | .plain ')' => depth - 1
  | _ => depth

/-- The pieces before the parenthesis that closes `depth` open ones and one more. -/
def closedBody (depth : Nat) : List Piece → Option (List Piece)
  | [] => none
  | p :: ps =>
    if depth = 0 ∧ p = .plain ')' then some []
    else (closedBody (p.depthAfter depth) ps).map (p :: ·)

/-- The text before the last occurrence of a character. -/
def beforeLast (c : Char) (s : List Char) : Option (List Char) :=
  if s.contains c then some ((s.reverse.dropWhile fun d => d != c).tail.reverse) else none

/-- The body of a definition, given the text after the parenthesis that opens it: up to the parenthesis that
closes it or, when none does, up to the last one there is. -/
def bodyAfterParen (s : List Char) : Option (List Char) :=
  ((closedBody 0 (pieces isSingleQuote s)).map textOf).or (beforeLast ')' s)

/-- The stretches between the commas outside all parentheses. -/
def cutAtCommas (depth : Nat) : List Piece → List (List Piece)
  | [] => [[]]
  | p :: ps =>
    if depth = 0 ∧ p = .plain ',' then [] :: cutAtCommas 0 ps
    else (cutAtCommas (p.depthAfter depth) ps).modifyHead (p :: ·)

/-- A trimmed text without the comments it begins with. -/
def dropLeadingComments (s : List Char) : List Char :=
  match _hTrim : Text.trim s with
  | [] => []
  | c :: r =>
    if (Piece.first isSingleQuote c r).1.isComment then
      dropLeadingComments (Piece.first isSingleQuote c r).2
    else c :: r
termination_by s.length
decreasing_by
  have hFirst := Piece.length_first_lt isSingleQuote c r
  have hLength := Text.length_trim_le s
  rw [_hTrim] at hLength
  omega

/-- The items of a body. The comments that an item begins with are dropped, and so are empty items. -/
def splitTopLevel (body : List Char) : List (List Char) :=
  ((cutAtCommas 0 (pieces isSingleQuote body)).map fun ps => dropLeadingComments (textOf ps)).filter
    fun t => !t.isEmpty

/-- The items of a body as they are read: without their comments. -/
def items (body : List Char) : List (List Char) :=
  (splitTopLevel body).map fun t => Text.trim (withoutComments t)

end SqlSurvey.Sql
