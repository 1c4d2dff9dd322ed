import SqlSurvey.Proofs.Schema.Events
import SqlSurvey.Proofs.Sql.Plain
import SqlSurvey.Proofs.Text.Identifier
import Mathlib.Tactic.MkIffOfInductiveProp

/-!
# Writing a schema as definitions

How a schema is written down: a statement for each table and for each index. `Renderable` says which schemas
can be written this way, and `Arranged` in which orders the statements may come.
-/

namespace SqlSurvey

/-! ## Words with a meaning -/

/-- The words that an item of a table body begins with when it is no column. -/
def reservedNames : List String := ["FOREIGN", "PRIMARY", "UNIQUE", "CHECK", "CONSTRAINT"]

/-- What may happen to a row when the row that it refers to is deleted or updated. -/
def referentialActions : List String := ["CASCADE", "RESTRICT", "SET NULL", "SET DEFAULT", "NO ACTION"]

/-- Names with commas between, as they stand in a list. -/
def namesText (names : List String) : List Char := Sql.commaList (names.map String.toList)

/-! ## Columns -/

namespace Column

/-- A column that can be written down so that it is read back. -/
@[mk_iff]
structure Renderable (c : Column) : Prop where
  name : Text.isIdentifier c.name.toList = true
  /-- In upper or lower case, the name is none of the words that begin another item. -/
  free : ∀ w ∈ reservedNames, Text.sameAscii w.toList c.name.toList = false
  type : Text.isIdentifier c.type.toList = true
  upper : ∀ d ∈ c.type.toList, d.isLower = false
  key : c.isPrimaryKey = true → c.nullable = false
  default : ∀ d ∈ c.defaultValue, Text.isDecimal d.toList = true

instance (c : Column) : Decidable c.Renderable := decidable_of_iff' _ (renderable_iff c)

/-- The keywords after the type. NOT NULL is left out for a key, which is never null. -/
def keywords (key autoIncrement nullable : Bool) : List Char :=
  (if key then " PRIMARY KEY".toList else []) ++ (if autoIncrement then " AUTOINCREMENT".toList else []) ++
    if nullable || key then [] else " NOT NULL".toList

/-- What stands after the type of a column. -/
def constraints (c : Column) : List Char :=
  keywords c.isPrimaryKey c.isAutoIncrement c.nullable ++
    match c.defaultValue with
    | none => []
    | some d => " DEFAULT ".toList ++ d.toList

/-- The item that declares a column. -/
def render (c : Column) : List Char := c.name.toList ++ [' '] ++ c.type.toList ++ c.constraints

end Column

/-! ## Foreign keys -/

namespace ForeignKey

/-- A foreign key that can be written down so that it is read back. -/
@[mk_iff]
structure Renderable (k : ForeignKey) : Prop where
  column : Text.isIdentifier k.column.toList = true
  referencesTable : Text.isIdentifier k.referencesTable.toList = true
  referencesColumn : Text.isIdentifier k.referencesColumn.toList = true
  onDelete : ∀ a ∈ k.onDelete, a ∈ referentialActions
  onUpdate : ∀ a ∈ k.onUpdate, a ∈ referentialActions

instance (k : ForeignKey) : Decidable k.Renderable := decidable_of_iff' _ (renderable_iff k)

/-- What stands after the referenced column. -/
def actions (onDelete onUpdate : Option String) : List Char :=
  (match onDelete with
    | none => []
    | some a => " ON DELETE ".toList ++ a.toList) ++
  match onUpdate with
    | none => []
    | some a => " ON UPDATE ".toList ++ a.toList

/-- The item that declares a foreign key. -/
def render (k : ForeignKey) : List Char :=
  "FOREIGN KEY (".toList ++ k.column.toList ++ ") REFERENCES ".toList ++ k.referencesTable.toList ++ ['('] ++
    k.referencesColumn.toList ++ [')'] ++ actions k.onDelete k.onUpdate

theorem render_eq (k : ForeignKey) : k.render =
    "FOREIGN KEY (".toList ++ k.column.toList ++ ") REFERENCES ".toList ++ k.referencesTable.toList ++ ['('] ++
      k.referencesColumn.toList ++ [')'] ++ actions k.onDelete k.onUpdate := rfl

end ForeignKey

/-! ## Indexes -/

namespace Index

/-- An index that can be written down so that it is read back. -/
@[mk_iff]
structure Renderable (i : Index) : Prop where
  name : Text.isIdentifier i.name.toList = true
  nonempty : i.columns ≠ []
  columns : ∀ c ∈ i.columns, Text.isIdentifier c.toList = true

instance (i : Index) : Decidable i.Renderable := decidable_of_iff' _ (renderable_iff i)

/-- The statement that creates an index on a table. -/
def render (table : String) (i : Index) : List Char :=
  "CREATE ".toList ++ (if i.isUnique then "UNIQUE ".toList else []) ++ "INDEX ".toList ++ i.name.toList ++
    " ON ".toList ++ table.toList ++ " (".toList ++ namesText i.columns ++ [')']

theorem render_eq (table : String) (i : Index) : i.render table =
    "CREATE ".toList ++ (if i.isUnique then "UNIQUE ".toList else []) ++ "INDEX ".toList ++ i.name.toList ++
      " ON ".toList ++ table.toList ++ " (".toList ++ namesText i.columns ++ [')'] := rfl

end Index

/-! ## Tables -/

namespace Table

/-- The names of the columns that are declared as primary keys. -/
def inlineKey (t : Table) : List String := (t.columns.filter Column.isPrimaryKey).map Column.name

/-- The names that the table itself declares as its primary key, after those of its columns. -/
def declaredKey (t : Table) : List String := t.primaryKey.drop t.inlineKey.length

/-- A table that can be written down so that it is read back. -/
@[mk_iff]
structure Renderable (t : Table) : Prop where
  name : Text.isIdentifier t.name.toList = true
  columns : ∀ c ∈ t.columns, c.Renderable
  key : t.primaryKey = t.inlineKey ++ t.declaredKey
  declared : ∀ c ∈ t.declaredKey, Text.isIdentifier c.toList = true
  foreignKeys : ∀ k ∈ t.foreignKeys, k.Renderable

instance (t : Table) : Decidable t.Renderable := decidable_of_iff' _ (renderable_iff t)

/-- The item that declares the primary key of a table, if there is something to declare. -/
def keyItems (names : List String) : List (List Char) :=
  if names = [] then [] else ["PRIMARY KEY (".toList ++ namesText names ++ [')']]

/-- The items of the body: columns, primary key, foreign keys. -/
def items (t : Table) : List (List Char) :=
  t.columns.map Column.render ++ keyItems t.declaredKey ++ t.foreignKeys.map ForeignKey.render

/-- The statement that creates a table. -/
def render (t : Table) : List Char :=
  "CREATE TABLE ".toList ++ t.name.toList ++ " (".toList ++ (Sql.commaList t.items ++ [')'])

theorem render_eq (t : Table) : t.render =
    "CREATE TABLE ".toList ++ t.name.toList ++ " (".toList ++ (Sql.commaList t.items ++ [')']) := rfl

/-- The table as its own statement leaves it. -/
def withoutIndexes (t : Table) : Table := { t with indexes := [] }

end Table

/-! ## Statements -/

namespace SchemaEvent

/-- An event whose statement is read back as that event. -/
inductive Renderable : SchemaEvent → Prop
  | table {t : Table} (h : t.Renderable) (hIndexes : t.indexes = []) : Renderable (.table t)
  | index {name : String} {i : Index} (hName : Text.isIdentifier name.toList = true) (h : i.Renderable) :
    Renderable (.index name i)

/-- The table that an event creates. -/
def createdTable? : SchemaEvent → Option Table
  | .table t => some t
  | .index _ _ => none

/-- The statement of an event. -/
def render : SchemaEvent → List Char
  | .table t => t.render
  | .index name i => i.render name

end SchemaEvent

/-- What is written down for a table: its statement, then those of its indexes. -/
def Table.events (t : Table) : List SchemaEvent := .table t.withoutIndexes :: t.indexes.map (.index t.name)

namespace Schema

/-- A schema that can be written down so that it is read back. -/
@[mk_iff]
structure Renderable (s : Schema) : Prop where
  names : s.tableNames.Nodup
  tables : ∀ t ∈ s.tables, t.Renderable
  indexes : ∀ t ∈ s.tables, ∀ i ∈ t.indexes, i.Renderable

instance (s : Schema) : Decidable s.Renderable := decidable_of_iff' _ (renderable_iff s)

/-- An order in which a schema may be written down: the tables in their order, each index after its table, and
the indexes of each table in their order. -/
structure Arranged (s : Schema) (events : List SchemaEvent) : Prop where
  tables : events.filterMap SchemaEvent.createdTable? = s.tables.map Table.withoutIndexes
  after : ∀ before name i rest, events = before ++ .index name i :: rest →
    name ∈ SchemaEvent.createdNames before
  indexes : ∀ t ∈ s.tables, SchemaEvent.indexesOn t.name events = t.indexes

/-- The tables one after the other, each with its indexes right after it. -/
def events (s : Schema) : List SchemaEvent := s.tables.flatMap Table.events

end Schema

end SqlSurvey
