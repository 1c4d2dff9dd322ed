import SqlSurvey.Sql.Statement
import SqlSurvey.Ddl.Table
import SqlSurvey.Ddl.Index

/-!
# Recovering a schema from statements

A statement is seen as events: a table is created, an index is created. A schema takes in one event after
the other. A table of a known name replaces the old one; an index joins its table if that is already
there and is dropped otherwise.
-/

namespace SqlSurvey

/-- What a statement does to a schema. -/
inductive SchemaEvent where
  | table (t : Table)
  | index (table : String) (i : Index)
deriving DecidableEq, Repr

namespace SchemaEvent

/-- The events of a statement: the table it creates, then the index it creates. -/
def ofStatement (sql : List Char) : List SchemaEvent :=
  (if Ddl.createsTable sql then (Ddl.readTable? sql).toList.map table else []) ++
    (if Ddl.createsIndex sql then (Ddl.readIndex? sql).toList.map fun p => index p.1 p.2 else [])

/-- The events of a text that may hold several statements. -/
def ofText (sql : List Char) : List SchemaEvent := (Sql.statements sql).flatMap ofStatement

end SchemaEvent

namespace Schema

/-- The schema after an event. -/
def afterEvent (s : Schema) : SchemaEvent → Schema
  | .table t => s.add t
  | .index table i => s.modify table fun t => t.addIndex i

/-- The schema after events, in order. -/
def afterEvents (s : Schema) (events : List SchemaEvent) : Schema := events.foldl afterEvent s

/-- The schema after a statement. -/
def afterStatement (s : Schema) (sql : List Char) : Schema := s.afterEvents (SchemaEvent.ofStatement sql)

/-- The schema after the statements of a text. -/
def afterText (s : Schema) (sql : List Char) : Schema := (Sql.statements sql).foldl afterStatement s

/-- Statement by statement or event by event, the schema is the same. -/
theorem afterText_eq_afterEvents (s : Schema) (sql : List Char) :
    s.afterText sql = s.afterEvents (SchemaEvent.ofText sql) := by
  simp only [afterText, afterEvents, SchemaEvent.ofText, List.foldl_flatMap]
  rfl

end Schema

end SqlSurvey
