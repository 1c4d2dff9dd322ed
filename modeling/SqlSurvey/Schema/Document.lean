import SqlSurvey.Schema.Basic
import SqlSurvey.Json.Record

/-!
# Schemas as JSON documents

The JSON form of a schema and of its parts, written and read. A value that is read is taken as it is: type
words keep their case, and primary keys are not derived. Reading a schema adds its tables one after
the other, so of two tables of one name the later one counts, in the place of the earlier.
-/

namespace SqlSurvey

namespace Column

/-- The JSON form of a column. -/
def toJson (c : Column) : Json :=
  .object [
    ("name", .string c.name),
    ("type", .string c.type),
    ("nullable", .bool c.nullable),
    ("isPrimaryKey", .bool c.isPrimaryKey),
    ("isAutoIncrement", .bool c.isAutoIncrement),
    ("defaultValue", .ofOption c.defaultValue)]

/-- The fields of a column. -/
def fields : List Json.Field :=
  [.required "name", .required "type", .required "nullable", .required "isPrimaryKey",
    .required "isAutoIncrement", .optional "defaultValue"]

/-- Reads a column. -/
def ofJson? (j : Json) : Option Column := do
  match ← j.parts? fields with
  | [name, type, nullable, isPrimaryKey, isAutoIncrement, defaultValue] =>
    return {
      name := ← name.asString?
      type := ← type.asString?
      nullable := ← nullable.asBool?
      isPrimaryKey := ← isPrimaryKey.asBool?
      isAutoIncrement := ← isAutoIncrement.asBool?
      defaultValue := ← defaultValue.asOptionalString? }
  | _ => none

end Column

namespace ForeignKey

/-- The JSON form of a foreign key. -/
def toJson (k : ForeignKey) : Json :=
  .object [
    ("column", .string k.column),
    ("referencesTable", .string k.referencesTable),
    ("referencesColumn", .string k.referencesColumn),
    ("onDelete", .ofOption k.onDelete),
    ("onUpdate", .ofOption k.onUpdate)]

/-- The fields of a foreign key. -/
def fields : List Json.Field :=
  [.required "column", .required "referencesTable", .required "referencesColumn", .optional "onDelete",
    .optional "onUpdate"]

/-- Reads a foreign key. -/
def ofJson? (j : Json) : Option ForeignKey := do
  match ← j.parts? fields with
  | [column, referencesTable, referencesColumn, onDelete, onUpdate] =>
    return {
      column := ← column.asString?
      referencesTable := ← referencesTable.asString?
      referencesColumn := ← referencesColumn.asString?
      onDelete := ← onDelete.asOptionalString?
      onUpdate := ← onUpdate.asOptionalString? }
  | _ => none

end ForeignKey

namespace Index

/-- The JSON form of an index. -/
def toJson (i : Index) : Json :=
  .object [
    ("name", .string i.name),
    ("columns", .strings i.columns),
    ("isUnique", .bool i.isUnique)]

/-- The fields of an index. -/
def fields : List Json.Field := [.required "name", .required "columns", .required "isUnique"]

/-- Reads an index. -/
def ofJson? (j : Json) : Option Index := do
  match ← j.parts? fields with
  | [name, columns, isUnique] =>
    return {
      name := ← name.asString?
      columns := ← columns.asList? Json.asString?
      isUnique := ← isUnique.asBool? }
  | _ => none

end Index

namespace Table

/-- The JSON form of a table. -/
def toJson (t : Table) : Json :=
  .object [
    ("name", .string t.name),
    ("columns", .array (t.columns.map Column.toJson)),
    ("primaryKey", .strings t.primaryKey),
    ("foreignKeys", .array (t.foreignKeys.map ForeignKey.toJson)),
    ("indexes", .array (t.indexes.map Index.toJson))]

/-- The fields of a table. -/
def fields : List Json.Field :=
  [.required "name", .required "columns", .required "primaryKey", .required "foreignKeys",
    .required "indexes"]

/-- Reads a table. -/
def ofJson? (j : Json) : Option Table := do
  match ← j.parts? fields with
  | [name, columns, primaryKey, foreignKeys, indexes] =>
    return {
      name := ← name.asString?
      columns := ← columns.asList? Column.ofJson?
      primaryKey := ← primaryKey.asList? Json.asString?
      foreignKeys := ← foreignKeys.asList? ForeignKey.ofJson?
      indexes := ← indexes.asList? Index.ofJson? }
  | _ => none

end Table

namespace Relationship

/-- The JSON form of a relationship. -/
def toJson (r : Relationship) : Json :=
  .object [
    ("fromTable", .string r.fromTable),
    ("fromColumn", .string r.fromColumn),
    ("toTable", .string r.toTable),
    ("toColumn", .string r.toColumn),
    ("onDelete", .ofOption r.onDelete),
    ("onUpdate", .ofOption r.onUpdate)]

end Relationship

namespace Schema

/-- The JSON form of a schema. -/
def toJson (s : Schema) : Json := .object [("tables", .array (s.tables.map Table.toJson))]

/-- Reads a schema. -/
def ofJson? (j : Json) : Option Schema := do
  match ← j.parts? [.required "tables"] with
  | [tables] => return ofTables (← tables.asList? Table.ofJson?)
  | _ => none

end Schema

end SqlSurvey
