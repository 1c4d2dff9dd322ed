import SqlSurvey.Pattern.Basic
import SqlSurvey.Query.Kind

/-!
# Queries

A query as it is shown: its text with single spaces, its kind, the line of its literal. The tables that it
touches are the words after certain keywords, wherever in the text these stand.
-/

namespace SqlSurvey

/-- A query found in a program. -/
structure Query where
  /-- The text with single spaces. -/
  sql : String
  kind : Query.Kind
  /-- The line of the literal that holds the query. -/
  line : Nat
deriving DecidableEq, Repr

namespace Query

/-- The query in a text that was found at a line. -/
def ofText (sql : List Char) (line : Nat) : Query where
  sql := String.ofList (Text.collapse sql)
  kind := Kind.classify sql
  line := line

/-! ## Tables -/

open Pattern

/-- Keywords with the word after them as part 1. -/
def afterKeywords (keywords : Pattern) : Pattern := keywords ++ blanks ++ group 1 word

/-- `FROM t`. -/
def fromPattern : Pattern := afterKeywords (keyword "FROM".toList)

/-- `JOIN t`. -/
def joinPattern : Pattern := afterKeywords (keyword "JOIN".toList)

/-- `INSERT INTO t`, also with `OR` and a word. -/
def insertPattern : Pattern :=
  afterKeywords (keyword "INSERT".toList ++ blanks ++
    maybe (keyword "OR".toList ++ blanks ++ word ++ blanks) ++ keyword "INTO".toList)

/-- `UPDATE t`. -/
def updatePattern : Pattern := afterKeywords (keyword "UPDATE".toList)

/-- `DELETE FROM t`. -/
def deletePattern : Pattern :=
  afterKeywords (keyword "DELETE".toList ++ blanks ++ keyword "FROM".toList)

/-- The patterns that tables are looked for with, one after the other. -/
def tablePatterns : List Pattern :=
  [fromPattern, joinPattern, insertPattern, updatePattern, deletePattern]

/-- The words that a pattern finds, in text order. -/
def foundBy (sql : List Char) (p : Pattern) : List (List Char) :=
  (p.findAll sql).map fun h => h.groupText 1

/-- The members of a list without repetitions, each where it first comes up. -/
def distinct {α : Type} [BEq α] (xs : List α) : List α :=
  xs.foldl (fun seen x => if seen.contains x then seen else seen ++ [x]) []

/-- The tables that a query touches, pattern by pattern, each once. -/
def tables (sql : List Char) : List (List Char) := distinct (tablePatterns.flatMap (foundBy sql))

end Query

end SqlSurvey
