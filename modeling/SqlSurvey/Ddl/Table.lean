import SqlSurvey.Sql.Item
import SqlSurvey.Ddl.Column
import SqlSurvey.Ddl.ForeignKey

/-!
# CREATE TABLE

A table is read from the first place where a statement creates one. Each item of its body is a
foreign key, a primary key, a constraint without effect on the schema, or a column; an item that is
none of these is passed over.
-/

namespace SqlSurvey.Ddl

open Pattern

/-- What every statement that creates a table contains. -/
def createTableShape : Pattern := phrase "CREATE" ["TABLE"]

/-- CREATE TABLE up to the parenthesis that opens the body, with the name as part 1. -/
def createTableHead : Pattern :=
  phrase "CREATE" ["TABLE"] ++ blanks ++ ifNotExists ++ name 1 ++ gap ++ exactly '('

/-- Whether a statement is to be read as one that creates a table. -/
def createsTable (sql : List Char) : Bool := createTableShape.occursIn sql

/-- An item that begins as a foreign key of the table. -/
def foreignKeyItem : Pattern := atStart ++ phrase "FOREIGN" ["KEY"]

/-- An item that begins as a primary key of the table. -/
def primaryKeyItem : Pattern := atStart ++ phrase "PRIMARY" ["KEY"]

/-- An item that constrains the table without naming a key. -/
def constraintItem : Pattern :=
  atStart ++ either (keyword "UNIQUE".toList) (either (keyword "CHECK".toList)
    (keyword "CONSTRAINT".toList)) ++ atWordEdge

/-- PRIMARY KEY with its columns as part 1. -/
def primaryKeyClause : Pattern := phrase "PRIMARY" ["KEY"] ++ gap ++ parenthesized 1

/-- The columns that a table-level primary key names. -/
def readPrimaryKey (item : List Char) : List String :=
  match primaryKeyClause.find item with
  | none => []
  | some h => (nameList (h.groupText 1)).map String.ofList

/-- A table with what one item of its body adds to it. -/
def addItem (t : Table) (item : List Char) : Table :=
  if foreignKeyItem.occursIn item then
    { t with foreignKeys := t.foreignKeys ++ readForeignKeys item }
  else if primaryKeyItem.occursIn item then
    { t with primaryKey := t.primaryKey ++ readPrimaryKey item }
  else if constraintItem.occursIn item then t
  else match readColumn? item with
    | none => t
    | some column =>
      let keys := (readInlineReference? column.name item).toList
      { t with foreignKeys := t.foreignKeys ++ keys }.addColumn column

/-- The table that a statement creates. -/
def readTable? (sql : List Char) : Option Table := do
  let h ← createTableHead.find sql
  let body ← Sql.bodyAfterParen h.rest
  return (Sql.items body).foldl addItem (Table.named (String.ofList (h.groupText 1)))

end SqlSurvey.Ddl
