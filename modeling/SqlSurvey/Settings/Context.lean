import SqlSurvey.Files.Detection
import SqlSurvey.TypeScript.Source
import SqlSurvey.Settings.Config

/-!
# Contexts

What a command works on: the two files of a project, as configured or found, and what they hold. The two documents
do not depend on each other: a file that cannot be read leaves only its own document out.
-/

namespace SqlSurvey

/-- The schema that a file defines. -/
def Schema.ofFile (t : FileTree) (path : Path) : Except Failure Schema :=
  match t.read? path with
  | some source => .ok (.ofSource source)
  | none => .error (.unreadable path)

/-- The dialect of a file, by its extension. -/
def TypeScript.Dialect.ofPath? (path : Path) : Option TypeScript.Dialect :=
  path.extension?.bind fun e => ofExtension? (String.ofList e)

/-- The catalogue of a file, which must be in a known language. -/
def Catalog.ofFile (t : FileTree) (path : Path) : Except Failure Catalog :=
  match TypeScript.Dialect.ofPath? path with
  | none => .error (.unsupportedLanguage path)
  | some dialect =>
    match t.read? path with
    | some source => .ok (.ofSource dialect source)
    | none => .error (.unreadable path)

/-- The files of a project and what they hold. -/
structure Context where
  schemaPath : Option Path
  functionsPath : Option Path
  schema : Option Schema
  functions : Option Catalog
  format : Format
deriving DecidableEq, Repr

/-- What is known about the two files of a project. -/
structure Info where
  /-- The file of the schema, or nothing. -/
  schemaPath : String
  /-- The file of the functions, or nothing. -/
  functionsPath : String
  tableCount : Nat
  /-- How many functions are exported. -/
  functionCount : Nat
deriving DecidableEq, Repr

namespace Context

/-- The files that a configuration names, or else those found where it says. -/
def filesOf (t : FileTree) (c : Config) : FoundFiles :=
  let found := FoundFiles.detect t (c.dir.getD (.ofString "."))
  ⟨c.schema.or found.schemaPath, c.functions.or found.functionsPath⟩

/-- The context for a configuration. At least one of the files must be named or found. -/
def ofConfig (t : FileTree) (c : Config) : Except Failure Context :=
  let files := filesOf t c
  if files.schemaPath.isNone && files.functionsPath.isNone then .error .nothingFound
  else
    .ok {
      schemaPath := files.schemaPath
      functionsPath := files.functionsPath
      schema := files.schemaPath.bind fun p => (Schema.ofFile t p).toOption
      functions := files.functionsPath.bind fun p => (Catalog.ofFile t p).toOption
      format := c.reportFormat }

/-- The context for the options of a command. -/
def load (t : FileTree) (o : SourceOptions) : Except Failure Context :=
  (Config.inUse t o).bind (ofConfig t)

/-- The schema, which must be there. -/
def theSchema (x : Context) : Except Failure Schema :=
  match x.schema with
  | some s => .ok s
  | none => .error .noSchema

/-- The functions, which must be there. -/
def theFunctions (x : Context) : Except Failure Catalog :=
  match x.functions with
  | some c => .ok c
  | none => .error .noFunctions

/-- The relationships of the schema, which must be there. -/
def relationships (x : Context) : Except Failure (List Relationship) :=
  x.theSchema.map Schema.relationships

/-- What is known about the files, with their paths from the root directory. -/
def info (t : FileTree) (x : Context) : Info where
  schemaPath := shown x.schemaPath
  functionsPath := shown x.functionsPath
  tableCount := (x.schema.map fun s => s.tables.length).getD 0
  functionCount := (x.functions.map fun c => c.exported.length).getD 0
where
  /-- A path from the root directory, or nothing. -/
  shown (path : Option Path) : String := ((path.map fun p => (p.absolute t.workingPath)).map Path.toString).getD ""

end Context

end SqlSurvey
