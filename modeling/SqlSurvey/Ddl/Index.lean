import SqlSurvey.Schema.Basic
import SqlSurvey.Ddl.Phrase

/-!
# CREATE INDEX

An index is read from the first place where a statement creates one, together with the name of the
table it belongs to. Its column list is taken to be flat: every comma separates two columns.
-/

namespace SqlSurvey.Ddl

open Pattern

/-- What every statement that creates an index contains. -/
def createIndexShape : Pattern :=
  keyword "CREATE".toList ++ blanks ++ maybe (keyword "UNIQUE".toList ++ blanks) ++ keyword "INDEX".toList

/-- CREATE INDEX with UNIQUE as part 1, the name as part 2, the table as part 3 and the columns as part 4. -/
def createIndexClause : Pattern :=
  keyword "CREATE".toList ++ blanks ++ maybe (group 1 (keyword "UNIQUE".toList ++ blanks)) ++
    keyword "INDEX".toList ++ blanks ++ ifNotExists ++ name 2 ++ blanks ++ keyword "ON".toList ++ blanks ++
    name 3 ++ gap ++ parenthesized 4

/-- Whether a statement is to be read as one that creates an index. -/
def createsIndex (sql : List Char) : Bool := createIndexShape.occursIn sql

/-- The index that a statement creates, after the name of its table. -/
def readIndex? (sql : List Char) : Option (String × Index) :=
  (createIndexClause.find sql).map fun h =>
    (String.ofList (h.groupText 3), {
      name := String.ofList (h.groupText 2)
      columns := ((h.groupText 4).splitOnP fun c => c == ',').map fun t => String.ofList (Text.trim t)
      isUnique := (h.group? 1).isSome })

end SqlSurvey.Ddl
