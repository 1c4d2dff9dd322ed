import SqlSurvey.Text.Blank
import SqlSurvey.Text.Word
import SqlSurvey.Literal.Scanner
import SqlSurvey.Schema.Recovery

/-!
# SQL fragments

The literals of a source text that look like SQL, each with its trimmed text and the span of the whole
literal; and the schema that the fragments of a source define.
-/

namespace SqlSurvey

/-- The words that a text must begin with to be taken for SQL. -/
def statementKeywords : List String :=
  ["SELECT", "INSERT", "UPDATE", "DELETE", "CREATE", "ALTER", "DROP", "PRAGMA"]

/-- Whether a text begins, after blanks, with one of the statement keywords in any case. The keyword need not
be a whole word. -/
def looksLikeSql (text : List Char) : Bool :=
  statementKeywords.any fun k =>
    ((Text.trimStart text).take k.toList.length).map Text.lowerAscii == k.toList.map Text.lowerAscii

/-- A text that looks like SQL, with the place of the literal that holds it. -/
structure Fragment where
  text : List Char
  span : Text.Span
deriving DecidableEq, Repr

namespace Fragment

/-- The fragment in a literal of a source, if its body looks like SQL. -/
def ofLiteral? (source : List Char) (l : Literal) : Option Fragment :=
  let body := Text.trim (Text.slice source l.bodyStart l.bodyStop)
  if looksLikeSql body then some ⟨body, .locate source l.start (l.stop - l.start)⟩ else none

/-- The fragments of a source, in source order. -/
def allIn (source : List Char) : List Fragment :=
  (Literal.allIn source).filterMap (ofLiteral? source)

end Fragment

namespace Schema

/-- The schema after the fragments of a source. -/
def afterSource (s : Schema) (source : List Char) : Schema :=
  (Fragment.allIn source).foldl (fun s f => s.afterText f.text) s

/-- The schema that a source defines. -/
def ofSource (source : List Char) : Schema := empty.afterSource source

end Schema

end SqlSurvey
