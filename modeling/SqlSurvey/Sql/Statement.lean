import SqlSurvey.Text.Blank
import SqlSurvey.Sql.Piece

/-!
# Statements

A text of SQL is cut into statements at the semicolons that stand outside quoted runs and comments.
-/

namespace SqlSurvey.Sql

/-- The statements of a text, trimmed; empty ones are left out. -/
def statements (s : List Char) : List (List Char) :=
  (((pieces isAnyQuote s).splitOnP fun p => p == .plain ';').map fun ps => Text.trim (textOf ps)).filter
    fun t => !t.isEmpty

end SqlSurvey.Sql
