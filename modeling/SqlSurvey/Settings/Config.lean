import SqlSurvey.Files.Tree
import SqlSurvey.Toml.Reader
import SqlSurvey.Report.Format
import SqlSurvey.Settings.Failure

/-!
# Configuration

What a configuration file and the options of a command say about the files of a project. Paths in a
configuration file start at its directory; options win over the file; of several files the nearest above the
working directory counts.
-/

namespace SqlSurvey

/-- The options of a command that say where the files of the project are. -/
structure SourceOptions where
  schema : Option Path
  functions : Option Path
  /-- The directory in which files are looked for. -/
  dir : Option Path
  /-- The configuration file. -/
  config : Option Path
  format : Option Format
deriving DecidableEq, Repr, Inhabited

/-- No options. -/
def SourceOptions.none : SourceOptions := ⟨.none, .none, .none, .none, .none⟩

/-- What is configured. -/
structure Config where
  schema : Option Path
  functions : Option Path
  /-- The directory in which files are looked for. -/
  dir : Option Path
  /-- The form of reports, in a word that need not be known. -/
  format : Option (List Char)
deriving DecidableEq, Repr

namespace Config

/-- Nothing is configured. -/
def empty : Config := ⟨none, none, none, none⟩

/-- The name of configuration files. -/
def fileName : Path := .ofString "dbviewer.toml"

/-! ## Configuration files -/

/-- The string that a table has for a key, if it has the key. Any other value is refused. -/
def string? (entries : Toml.Entries) (key : String) : Option (Option (List Char)) :=
  match Toml.get? entries key.toList with
  | none => some none
  | some (.string s) => some (some s)
  | some _ => none

/-- The configuration in a table. Keys that mean nothing here are ignored. -/
def ofToml? (entries : Toml.Entries) : Option Config := do
  let schema ← string? entries "schema"
  let functions ← string? entries "functions"
  let dir ← string? entries "dir"
  let format ← string? entries "format"
  return ⟨schema.map Path.mk, functions.map Path.mk, dir.map Path.mk, format⟩

/-- A configuration whose paths start at a directory. -/
def rebase (c : Config) (directory : Path) : Config :=
  { c with
    schema := c.schema.map directory.join
    functions := c.functions.map directory.join
    dir := c.dir.map directory.join }

/-- A configuration from the file at a path. Where the path names no directory, paths stay as they are. -/
def rebaseFor (c : Config) (path : Path) : Config :=
  match path.parent? with
  | some directory => if directory.text = [] then c else c.rebase directory
  | none => c

/-- The configuration in a file. -/
def load (t : FileTree) (path : Path) : Except Failure Config :=
  match t.read? path with
  | none => .error (.unreadable path)
  | some text =>
    match (Toml.parse? text).bind ofToml? with
    | none => .error (.invalidConfig path)
    | some c => .ok (c.rebaseFor path)

/-- The nearest configuration file in a directory or above it. -/
def nearestFile? (t : FileTree) (directory : Path) : Option Path :=
  ((directory :: directory.above).map fun d => d.join fileName).find? t.isFile

/-- The configuration in the nearest file, if there is one. -/
def loadNearest (t : FileTree) (directory : Path) : Except Failure (Option Config) :=
  match nearestFile? t directory with
  | none => .ok none
  | some path => (load t path).map some

/-! ## Options -/

/-- A configuration with options in place of what it says. -/
def withOptions (c : Config) (o : SourceOptions) : Config where
  schema := o.schema.or c.schema
  functions := o.functions.or c.functions
  dir := o.dir.or c.dir
  format := (o.format.map fun f => f.name.toList).or c.format

/-- The configuration for the options of a command: that of the file they name or else of the nearest one. -/
def inUse (t : FileTree) (o : SourceOptions) : Except Failure Config := do
  let c ←
    match o.config with
    | some path => load t path
    | none => (loadNearest t t.workingPath).map fun c => Option.getD c empty
  return c.withOptions o

/-- The form of reports: lines for people, unless JSON is configured. -/
def reportFormat (c : Config) : Format := if c.format = some "json".toList then .json else .human

end Config

end SqlSurvey
