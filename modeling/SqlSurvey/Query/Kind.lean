import SqlSurvey.Text.Upper
import SqlSurvey.Query.Token

/-!
# Kinds of queries

A query is classified by its first word: the first token that is not blank if the whole text can be cut into
tokens and that token is a word, or else the first word between blanks.
-/

namespace SqlSurvey.Query

/-- The kind of a query. -/
inductive Kind where
  | select
  | insert
  | update
  | delete
  | other
deriving DecidableEq, Repr

namespace Kind

/-- The word for a kind. -/
def name : Kind → String
  | select => "SELECT"
  | insert => "INSERT"
  | update => "UPDATE"
  | delete => "DELETE"
  | other => "OTHER"

/-- The kind that a word stands for, in whatever case it is written. -/
def ofWord (word : List Char) : Kind :=
  ([select, insert, update, delete].find? fun k => Text.upper word == k.name.toList).getD other

/-- The kind that a first token stands for, if it is a word. A word in quotes is no keyword. -/
def ofToken? : Token → Option Kind
  | .word text false => some (ofWord text)
  | .word _ true => some other
  | _ => none

/-- The kind that the tokens of a text give it. -/
def ofTokens? (sql : List Char) : Option Kind :=
  (tokens? sql).bind fun ts => (ts.find? fun t => t != .blank).bind ofToken?

/-- The kind that the first word between blanks gives a text. -/
def ofFirstWord (sql : List Char) : Kind := ofWord ((Text.words sql).headD [])

/-- The kind of a query. -/
def classify (sql : List Char) : Kind := (ofTokens? sql).getD (ofFirstWord sql)

end Kind

end SqlSurvey.Query
