import SqlSurvey.Text.Word
import SqlSurvey.Text.Upper

/-!
# Schemas

Tables with their columns, keys and indexes, and the schema that holds them: tables in the order in which
their names first came up, each name once. Adding a table of a known name puts the new definition in
the place of the old one.
-/

namespace SqlSurvey

/-- A column of a table. -/
structure Column where
  name : String
  /-- The declared type word, in upper case when the column was read from a definition. -/
  type : String
  nullable : Bool
  isPrimaryKey : Bool
  isAutoIncrement : Bool
  /-- The default as it was written. -/
  defaultValue : Option String
deriving DecidableEq, Repr, Inhabited

namespace Column

/-- A column without constraints; its type word is put in upper case. -/
def ofType (name type : String) : Column where
  name := name
  type := String.ofList (Text.upper type.toList)
  nullable := true
  isPrimaryKey := false
  isAutoIncrement := false
  defaultValue := none

/-- The column with NOT NULL. -/
def notNull (c : Column) : Column := { c with nullable := false }

/-- The column as a primary key, which is never null. -/
def primaryKey (c : Column) : Column := { c with isPrimaryKey := true, nullable := false }

/-- The column with AUTOINCREMENT. -/
def autoIncrement (c : Column) : Column := { c with isAutoIncrement := true }

/-- The column with a default. -/
def withDefault (c : Column) (text : String) : Column := { c with defaultValue := some text }

end Column

/-- A column that refers to a column of some table. -/
structure ForeignKey where
  column : String
  /-- The table referred to, which the schema need not hold. -/
  referencesTable : String
  referencesColumn : String
  onDelete : Option String
  onUpdate : Option String
deriving DecidableEq, Repr, Inhabited

/-- An index of a table. -/
structure Index where
  name : String
  /-- The key columns, in key order. -/
  columns : List String
  isUnique : Bool
deriving DecidableEq, Repr, Inhabited

/-- A table. -/
structure Table where
  name : String
  /-- In order of declaration. -/
  columns : List Column
  /-- From inline and table-level keys, in the order seen. -/
  primaryKey : List String
  foreignKeys : List ForeignKey
  indexes : List Index
deriving DecidableEq, Repr, Inhabited

namespace Table

/-- A table that has only a name. -/
def named (name : String) : Table := ⟨name, [], [], [], []⟩

/-- The column of a name, ASCII letters compared without regard to case. -/
def column? (t : Table) (name : String) : Option Column :=
  t.columns.find? fun c => Text.sameAscii c.name.toList name.toList

/-- Whether there is a column of a name. -/
def hasColumn (t : Table) (name : String) : Bool := (t.column? name).isSome

/-- The names of the columns. -/
def columnNames (t : Table) : List String := t.columns.map Column.name

/-- The table with one more column, which joins the primary key if it is one. -/
def addColumn (t : Table) (c : Column) : Table :=
  { t with
    columns := t.columns ++ [c]
    primaryKey := if c.isPrimaryKey then t.primaryKey ++ [c.name] else t.primaryKey }

/-- The table with one more index. -/
def addIndex (t : Table) (i : Index) : Table := { t with indexes := t.indexes ++ [i] }

end Table

/-- A foreign key seen from outside: the column it starts from and the column it leads to. -/
structure Relationship where
  fromTable : String
  fromColumn : String
  toTable : String
  toColumn : String
  onDelete : Option String
  onUpdate : Option String
deriving DecidableEq, Repr, Inhabited

/-- The relationship that a foreign key of a table stands for. -/
def ForeignKey.relationship (k : ForeignKey) (table : String) : Relationship where
  fromTable := table
  fromColumn := k.column
  toTable := k.referencesTable
  toColumn := k.referencesColumn
  onDelete := k.onDelete
  onUpdate := k.onUpdate

/-- A schema: its tables, in the order in which their names first came up. -/
structure Schema where
  tables : List Table
deriving DecidableEq, Repr, Inhabited

namespace Schema

/-- The schema without tables. -/
def empty : Schema := ⟨[]⟩

/-- The names of the tables, in order. -/
def tableNames (s : Schema) : List String := s.tables.map Table.name

/-- The table of a name. -/
def table? (s : Schema) (name : String) : Option Table := s.tables.find? fun t => t.name == name

/-- Whether there is a table of a name. -/
def hasTable (s : Schema) (name : String) : Bool := s.tables.any fun t => t.name == name

/-- The schema with a table changed, if it has a table of that name. -/
def modify (s : Schema) (name : String) (f : Table → Table) : Schema :=
  ⟨s.tables.map fun t => if t.name == name then f t else t⟩

/-- The schema with a table: in the place of the table of that name, else at the end. -/
def add (s : Schema) (t : Table) : Schema :=
  if s.hasTable t.name then s.modify t.name fun _ => t else ⟨s.tables ++ [t]⟩

/-- The tables of a list, added one after the other. -/
def ofTables (ts : List Table) : Schema := ts.foldl add empty

/-- Every foreign key of every table, in table order and then in key order. -/
def relationships (s : Schema) : List Relationship :=
  s.tables.flatMap fun t => t.foreignKeys.map fun k => k.relationship t.name

/-! ## What the operations do to the names -/

@[simp] theorem tableNames_empty : empty.tableNames = [] := rfl

theorem hasTable_iff {s : Schema} {name : String} : s.hasTable name = true ↔ name ∈ s.tableNames := by
  simp only [hasTable, tableNames, List.any_eq_true, List.mem_map, beq_iff_eq]

theorem tableNames_modify (s : Schema) (name : String) (f : Table → Table)
    (hf : ∀ t, t.name = name → (f t).name = name) : (s.modify name f).tableNames = s.tableNames := by
  simp only [modify, tableNames, List.map_map]
  apply List.map_congr_left
  intro t _
  by_cases h : t.name = name
  · simp [h, hf t h]
  · simp [h]

/-- A known name keeps its place and a new one comes last. -/
theorem tableNames_add (s : Schema) (t : Table) :
    (s.add t).tableNames = if t.name ∈ s.tableNames then s.tableNames else s.tableNames ++ [t.name] := by
  by_cases h : t.name ∈ s.tableNames
  · -- the table is put in the place of the old one
    have hs : s.hasTable t.name = true := hasTable_iff.2 h
    simp only [add, hs, h, if_true]
    exact tableNames_modify s t.name (fun _ => t) fun _ _ => rfl
  · -- the table is put at the end
    have hs : ¬ s.hasTable t.name = true := fun k => h (hasTable_iff.1 k)
    rw [add, if_neg hs, if_neg h]
    simp [tableNames]

end Schema

end SqlSurvey
