import SqlSurvey.Catalog.Basic
import SqlSurvey.Json.Record

/-!
# Catalogues as JSON documents

The JSON form of a catalogue and of its parts, written and read. A description that is missing is left out.
-/

namespace SqlSurvey

namespace Query

/-- The JSON form of a query. -/
def toJson (q : Query) : Json :=
  .object [("sql", .string q.sql), ("type", .string q.kind.name), ("line", .natural q.line)]

/-- The kind of a name. -/
def Kind.ofName? (name : String) : Option Kind :=
  [Kind.select, .insert, .update, .delete, .other].find? fun k => k.name == name

/-- Reads the kind of a query: its name, or an object with the name as its only field and nothing in it. -/
def Kind.ofJson? : Json → Option Kind
  | .string name => ofName? name
  | .object [(name, .null)] => ofName? name
  | _ => none

/-- The fields of a query. -/
def fields : List Json.Field := [.required "sql", .required "type", .required "line"]

/-- Reads a query. -/
def ofJson? (j : Json) : Option Query := do
  match ← j.parts? fields with
  | [sql, kind, line] =>
    return {
      sql := ← sql.asString?
      kind := ← Kind.ofJson? kind
      line := ← line.asNat? }
  | _ => none

end Query

namespace Param

/-- The JSON form of a parameter. -/
def toJson (p : Param) : Json := .object [("name", .string p.name), ("type", .string p.type)]

/-- The fields of a parameter. -/
def fields : List Json.Field := [.required "name", .required "type"]

/-- Reads a parameter. -/
def ofJson? (j : Json) : Option Param := do
  match ← j.parts? fields with
  | [name, type] => return { name := ← name.asString?, type := ← type.asString? }
  | _ => none

end Param

namespace FunctionEntry

/-- The JSON form of a function. -/
def toJson (f : FunctionEntry) : Json :=
  .object ([
    ("name", .string f.name),
    ("params", .array (f.params.map Param.toJson)),
    ("returnType", .string f.returnType),
    ("sqlQueries", .array (f.sqlQueries.map Query.toJson)),
    ("tablesUsed", .strings f.tablesUsed),
    ("isExported", .bool f.isExported)] ++
    f.description.toList.map (fun d => ("description", .string d)) ++
    [("line", .natural f.line)])

/-- The fields of a function. -/
def fields : List Json.Field :=
  [.required "name", .required "params", .required "returnType", .required "sqlQueries",
    .required "tablesUsed", .required "isExported", .optional "description", .required "line"]

/-- Reads a function. -/
def ofJson? (j : Json) : Option FunctionEntry := do
  match ← j.parts? fields with
  | [name, params, returnType, sqlQueries, tablesUsed, isExported, description, line] =>
    return {
      name := ← name.asString?
      params := ← params.asList? Param.ofJson?
      returnType := ← returnType.asString?
      sqlQueries := ← sqlQueries.asList? Query.ofJson?
      tablesUsed := ← tablesUsed.asList? Json.asString?
      isExported := ← isExported.asBool?
      description := ← description.asOptionalString?
      line := ← line.asNat? }
  | _ => none

end FunctionEntry

namespace Catalog

/-- The JSON form of a catalogue. -/
def toJson (c : Catalog) : Json := .object [("functions", .array (c.functions.map FunctionEntry.toJson))]

/-- Reads a catalogue. -/
def ofJson? (j : Json) : Option Catalog := do
  match ← j.parts? [.required "functions"] with
  | [functions] => return ⟨← functions.asList? FunctionEntry.ofJson?⟩
  | _ => none

end Catalog

end SqlSurvey
