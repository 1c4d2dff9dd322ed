import SqlSurvey.Catalog.Basic
import SqlSurvey.TypeScript.Escape
import SqlSurvey.TypeScript.Grammar.Rules

/-!
# Declarations of a source file

The syntax tree of a source file, the declarations that are read off it, and the catalogue that
they make.
-/

namespace SqlSurvey

namespace TypeScript

/-- The syntax tree of a source. The depth that reading may take is bounded by a multiple of the length. -/
def Node.ofSource (dialect : Dialect) (source : List Char) : Node :=
  let depth := 400 * (source.length + 2)
  let children := ((Rule.read Grammar.rules dialect depth Grammar.sourceFile ⟨source, 0⟩).map Prod.fst).getD []
  .node .other .none 0 (Text.byteLength source) children

namespace Node

/-- The text of a node. -/
def text (source : List Char) (n : Node) : List Char := Text.slice source n.start n.stop

/-- What stands between the first and the last character of a literal, each of which is one byte. -/
def innerText (source : List Char) (n : Node) : List Char := Text.slice source (n.start + 1) (n.stop - 1)

/-- The text of a type behind its colon. -/
def typeText (source : List Char) (n : Node) : String :=
  String.ofList (Text.trim ((n.text source).dropWhile fun c => c == ':'))

/-- A name without the dots before the last parameter. -/
def dropDots : List Char → List Char
  | '.' :: '.' :: '.' :: r => dropDots r
  | s => s

/-- The parameter at a node. One without a type is of unknown type. -/
def param (source : List Char) (n : Node) : Param where
  name := String.ofList (dropDots (((n.child? .pattern).getD n).text source))
  type := ((n.child? .type).map fun t => t.typeText source).getD "unknown"

/-- The parameters of a function. -/
def params (source : List Char) (n : Node) : List Param :=
  match n.child? .parameters with
  | some ps => (ps.children.filter fun p => p.kind == .parameter).map fun p => p.param source
  | none => []

/-- The documentation comment that a node is. -/
def doc? (source : List Char) (n : Node) : Option (List Char) :=
  let text := n.text source
  if n.kind == .comment && ['/', '*', '*'].isPrefixOf text then some text else none

/-- The literal at a node: escapes of a string are decoded, all else is as written. -/
def bodyLiteral (source : List Char) (n : Node) : BodyLiteral where
  body := if n.kind == .string then Escape.decode (n.innerText source) else n.innerText source
  span := .inBytes source n.start n.stop

/-- The literals in the body of a function. -/
def bodyLiterals (source : List Char) (n : Node) : List BodyLiteral :=
  match n.child? .body with
  | some body => body.literals.map fun l => l.bodyLiteral source
  | none => []

/-- What a declaration says, in its place. -/
def Site.declaration (source : List Char) (s : Site) : Declaration where
  name := String.ofList (((s.node.child? .name).map fun n => n.text source).getD [])
  params := s.node.params source
  returnType := (s.node.child? .returnType).map fun t => t.typeText source
  isExported := s.isExported
  doc := s.previous.bind fun p => p.doc? source
  line := (Text.Span.inBytes source s.node.start s.node.stop).line
  literals := s.node.bodyLiterals source

end Node

/-- The function declarations of a source, in order. -/
def declarations (dialect : Dialect) (source : List Char) : List Declaration :=
  (Node.ofSource dialect source).sites.map fun s => s.declaration source

end TypeScript

/-- The catalogue of a source. -/
def Catalog.ofSource (dialect : TypeScript.Dialect) (source : List Char) : Catalog :=
  ofDeclarations (TypeScript.declarations dialect source)

end SqlSurvey
