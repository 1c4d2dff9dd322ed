import SqlSurvey.Settings.Context
import SqlSurvey.Schema.Document
import SqlSurvey.Catalog.Document

/-!
# Reports

Every document that a command shows has two forms: lines for people, and JSON. The lines are laid out here; the
JSON form is the document's own, written with indentation.
-/

namespace SqlSurvey

namespace Report

/-- Lines put together. -/
def lines (ls : List String) : String := "\n".intercalate ls

/-- Names put together in a list. -/
def commaList (names : List String) : String := ", ".intercalate names

/-- A text filled up with spaces on the left. -/
def padLeft (width : Nat) (s : String) : String :=
  String.ofList (List.replicate (width - s.length) ' ') ++ s

/-- A text filled up with spaces on the right. -/
def padRight (width : Nat) (s : String) : String :=
  s ++ String.ofList (List.replicate (width - s.length) ' ')

/-- A text, or nothing. -/
def onlyIf (condition : Bool) (s : String) : String := if condition then s else ""

/-- The actions of a foreign key, each after a space. -/
def actions (onDelete onUpdate : Option String) : String :=
  (onDelete.map fun a => s!" ON DELETE {a}").getD "" ++ (onUpdate.map fun a => s!" ON UPDATE {a}").getD ""

/-! ## Schemas -/

/-- A column: its name, its type and its constraints. -/
def column (c : Column) : String :=
  " ".intercalate ([c.name, c.type] ++
    (if c.isPrimaryKey then ["PRIMARY KEY"] else []) ++
    (if c.isAutoIncrement then ["AUTOINCREMENT"] else []) ++
    (if !c.nullable && !c.isPrimaryKey then ["NOT NULL"] else []) ++
    c.defaultValue.toList.map fun d => s!"DEFAULT {d}")

/-- A foreign key. -/
def foreignKey (k : ForeignKey) : String :=
  s!"  foreign key {k.column} -> {k.referencesTable}.{k.referencesColumn}" ++
    actions k.onDelete k.onUpdate

/-- An index. -/
def index (i : Index) : String :=
  "  " ++ onlyIf i.isUnique "unique " ++ s!"index {i.name} ({commaList i.columns})"

/-- The lines of a table. -/
def table (t : Table) : List String :=
  [s!"Table: {t.name}"] ++ t.columns.map (fun c => s!"  - {column c}") ++
    (if t.primaryKey.isEmpty then [] else [s!"  primary key ({commaList t.primaryKey})"]) ++
    t.foreignKeys.map foreignKey ++ t.indexes.map index

/-- A schema for people. -/
def schemaText (s : Schema) : String :=
  lines (s!"Schema: {s.tables.length} table(s)" :: s.tables.flatMap fun t => "" :: table t)

/-- A relationship. -/
def relationship (r : Relationship) : String :=
  s!"{r.fromTable}.{r.fromColumn} -> {r.toTable}.{r.toColumn}" ++ actions r.onDelete r.onUpdate

/-- Relationships for people. -/
def relationshipsText (rs : List Relationship) : String :=
  if rs.isEmpty then "No relationships" else lines (rs.map relationship)

/-- Relationships as a document, the fields of each in alphabetical order. -/
def relationshipsJson (rs : List Relationship) : Json :=
  .object [("relationships", .array (rs.map fun r => .object [
    ("fromColumn", .string r.fromColumn),
    ("fromTable", .string r.fromTable),
    ("onDelete", .ofOption r.onDelete),
    ("onUpdate", .ofOption r.onUpdate),
    ("toColumn", .string r.toColumn),
    ("toTable", .string r.toTable)]))]

/-! ## Catalogues -/

/-- The signature of a function, with its line. -/
def signature (f : FunctionEntry) : String :=
  onlyIf f.isExported "export " ++
    s!"{f.name}({commaList (f.params.map param)}): {f.returnType}  (line {f.line})"
where
  /-- A parameter with its type. -/
  param (p : Param) : String := s!"{p.name}: {p.type}"

/-- A query with its kind. -/
def query (q : Query) : String := s!"  [{q.kind.name}] {q.sql}"

/-- The lines of a function. -/
def function (f : FunctionEntry) : List String :=
  [signature f] ++ f.description.toList.map (fun d => s!"  {d}") ++ f.sqlQueries.map query ++
    (if f.tablesUsed.isEmpty then [] else [s!"  tables: {commaList f.tablesUsed}"])

/-- A catalogue for people. -/
def catalogText (c : Catalog) : String :=
  lines (s!"Functions: {c.functions.length} ({c.exported.length} exported)" ::
    c.functions.flatMap fun f => "" :: function f)

/-! ## Fragments -/

/-- A fragment with its place. -/
def fragment (f : Fragment) : String :=
  let place := padLeft 5 (toString f.span.line) ++ ":" ++ padRight 3 (toString f.span.column)
  place ++ " " ++ String.ofList (Text.collapse f.text)

/-- The JSON form of a span. -/
def spanJson (s : Text.Span) : Json :=
  .object [
    ("offset", .natural s.offset), ("length", .natural s.length),
    ("line", .natural s.line), ("column", .natural s.column)]

/-- The JSON form of a fragment. -/
def fragmentJson (f : Fragment) : Json :=
  .object [("text", .string (String.ofList f.text)), ("span", spanJson f.span)]

/-! ## Files -/

/-- The JSON form of what is known about the files. -/
def infoJson (i : Info) : Json :=
  .object [
    ("schemaPath", .string i.schemaPath),
    ("functionsPath", .string i.functionsPath),
    ("tableCount", .natural i.tableCount),
    ("functionCount", .natural i.functionCount)]

/-- What is known about the files, for people. -/
def infoText (i : Info) : String :=
  lines [
    s!"Schema file:    {shown i.schemaPath}",
    s!"Functions file: {shown i.functionsPath}",
    s!"Tables:         {i.tableCount}",
    s!"Functions:      {i.functionCount} exported"]
where
  /-- A path, or a word for none. -/
  shown (path : String) : String := if path.isEmpty then "(none)" else path

/-- The JSON form of the files found. -/
def foundJson (f : FoundFiles) : Json :=
  .object [
    ("schemaPath", .ofOption (f.schemaPath.map Path.toString)),
    ("functionsPath", .ofOption (f.functionsPath.map Path.toString))]

/-- The files found, for people. -/
def foundText (f : FoundFiles) : String :=
  lines [
    s!"Schema file:    {shown f.schemaPath}",
    s!"Functions file: {shown f.functionsPath}"]
where
  /-- A path, or a word for none. -/
  shown (path : Option Path) : String := (path.map Path.toString).getD "(not found)"

/-! ## Both forms -/

/-- The text of a document in JSON. -/
def jsonText (j : Json) : String := String.ofList j.render

/-- A schema in a form. -/
def schema (format : Format) (s : Schema) : String :=
  match format with
  | .human => schemaText s
  | .json => jsonText s.toJson

/-- A catalogue in a form. -/
def catalog (format : Format) (c : Catalog) : String :=
  match format with
  | .human => catalogText c
  | .json => jsonText c.toJson

/-- Relationships in a form. -/
def relationships (format : Format) (rs : List Relationship) : String :=
  match format with
  | .human => relationshipsText rs
  | .json => jsonText (relationshipsJson rs)

/-- Fragments in a form. -/
def fragments (format : Format) (fs : List Fragment) : String :=
  match format with
  | .human => lines (fs.map fragment)
  | .json => jsonText (.array (fs.map fragmentJson))

/-- What is known about the files, in a form. -/
def info (format : Format) (i : Info) : String :=
  match format with
  | .human => infoText i
  | .json => jsonText (infoJson i)

/-- The files found, in a form. -/
def found (format : Format) (f : FoundFiles) : String :=
  match format with
  | .human => foundText f
  | .json => jsonText (foundJson f)

end Report

end SqlSurvey
