import SqlSurvey.Schema.Basic
import SqlSurvey.Ddl.Phrase

/-!
# Foreign keys

A foreign key is declared for a table, with a list of columns on either side, or inside a column
definition. What happens on deletion and on update is looked for in the text after the referenced
columns.
-/

namespace SqlSurvey.Ddl

open Pattern

/-- FOREIGN KEY with the columns as part 1, the referenced table as part 2 and its columns as part 3. -/
def foreignKeyClause : Pattern :=
  phrase "FOREIGN" ["KEY"] ++ gap ++ parenthesized 1 ++ gap ++ keyword "REFERENCES".toList ++ blanks ++
    name 2 ++ gap ++ parenthesized 3

/-- REFERENCES inside a column definition, with the table as part 1 and its column as part 2. -/
def inlineReference : Pattern :=
  atWordEdge ++ keyword "REFERENCES".toList ++ blanks ++ name 1 ++ gap ++ exactly '(' ++ gap ++ name 2 ++
    gap ++ exactly ')'

/-- ON and an event, with the action as part 1. -/
def onEvent (event : String) : Pattern :=
  atWordEdge ++ phrase "ON" [event] ++ blanks ++ action 1

/-- The action that a text names for an event, with single spaces. -/
def actionOn (event : String) (s : List Char) : Option String :=
  ((onEvent event).find s).map fun h => String.ofList (Text.collapse (h.groupText 1))

/-- The foreign keys that a table-level clause declares: its columns paired in order with the referenced
ones, as far as both lists go. -/
def readForeignKeys (item : List Char) : List ForeignKey :=
  match foreignKeyClause.find item with
  | none => []
  | some h =>
    List.zipWith
      (fun column referenced => {
        column := String.ofList column
        referencesTable := String.ofList (h.groupText 2)
        referencesColumn := String.ofList referenced
        onDelete := actionOn "DELETE" h.rest
        onUpdate := actionOn "UPDATE" h.rest })
      (nameList (h.groupText 1)) (nameList (h.groupText 3))

/-- The foreign key that a column definition declares for its column. -/
def readInlineReference? (column : String) (definition : List Char) : Option ForeignKey :=
  (inlineReference.find definition).map fun h => {
    column := column
    referencesTable := String.ofList (h.groupText 1)
    referencesColumn := String.ofList (h.groupText 2)
    onDelete := actionOn "DELETE" h.rest
    onUpdate := actionOn "UPDATE" h.rest }

end SqlSurvey.Ddl
