import SqlSurvey.Text.Location
import SqlSurvey.Query.Basic
import SqlSurvey.Literal.Fragment

/-!
# Function catalogues

What a source file says about each of its named functions, and the entry that the catalogue makes of it: the
signature, the first line of the comment, the SQL queries in the body and the tables they touch.
-/

namespace SqlSurvey

/-- A parameter of a function, with the text of its type. -/
structure Param where
  name : String
  type : String
deriving DecidableEq, Repr, Inhabited

/-- A string literal in the body of a function. -/
structure BodyLiteral where
  /-- The value of a string in quotes, the source text of a template. -/
  body : List Char
  span : Text.Span
deriving DecidableEq, Repr

/-- A function as its source file declares it. -/
structure Declaration where
  name : String
  params : List Param
  /-- The text of the return type, if one is written. -/
  returnType : Option String
  isExported : Bool
  /-- The documentation comment directly before the declaration, as it is written. -/
  doc : Option (List Char)
  line : Nat
  literals : List BodyLiteral
deriving DecidableEq, Repr

/-- A function of the catalogue. -/
structure FunctionEntry where
  name : String
  params : List Param
  returnType : String
  sqlQueries : List Query
  tablesUsed : List String
  isExported : Bool
  description : Option String
  line : Nat
deriving DecidableEq, Repr

/-! ## Descriptions -/

/-- A text without an ending, if it has it. -/
def withoutEnding (ending s : List Char) : List Char :=
  if ending.isSuffixOf s then s.take (s.length - ending.length) else s

/-- A line of a comment without its margin of stars. -/
def commentLine (line : List Char) : List Char :=
  Text.trim ((Text.trim line).dropWhile fun c => c == '*')

/-- The description in a documentation comment: the first line with text in it, up to the first at sign. There is
none if the comment has no text or its text begins with a tag. -/
def description? (raw : List Char) : Option (List Char) := do
  let inner ← ['/', '*', '*'].isPrefixOf? (Text.trim raw)
  let lines := ((withoutEnding ['*', '/'] inner).splitOnP fun c => c == '\n').map commentLine
  let line ← lines.find? fun l => !l.isEmpty
  let text := Text.trim (line.takeWhile fun c => c != '@')
  if text.isEmpty then none else some text

/-! ## Entries -/

namespace Declaration

/-- The texts in the body that look like SQL, trimmed, each with its line. -/
def sqlTexts (d : Declaration) : List (List Char × Nat) :=
  (d.literals.map fun l => (Text.trim l.body, l.span.line)).filter fun t => looksLikeSql t.1

/-- The entry of the catalogue for a declaration. A function without a return type returns nothing. -/
def entry (d : Declaration) : FunctionEntry where
  name := d.name
  params := d.params
  returnType := d.returnType.getD "void"
  sqlQueries := d.sqlTexts.map fun t => Query.ofText t.1 t.2
  tablesUsed := (Query.distinct (d.sqlTexts.flatMap fun t => Query.tables t.1)).map String.ofList
  isExported := d.isExported
  description := (d.doc.bind description?).map String.ofList
  line := d.line

end Declaration

/-- The functions of one source file, in order of declaration. -/
structure Catalog where
  functions : List FunctionEntry
deriving DecidableEq, Repr

namespace Catalog

/-- The catalogue of declarations. -/
def ofDeclarations (ds : List Declaration) : Catalog := ⟨ds.map Declaration.entry⟩

/-- The functions that are exported. -/
def exported (c : Catalog) : List FunctionEntry := c.functions.filter FunctionEntry.isExported

/-- The first function of a name. -/
def function? (c : Catalog) (name : String) : Option FunctionEntry :=
  c.functions.find? fun f => f.name == name

end Catalog

end SqlSurvey
