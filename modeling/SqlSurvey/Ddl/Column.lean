import SqlSurvey.Schema.Basic
import SqlSurvey.Ddl.Phrase

/-!
# Column definitions

A column definition is a name, a type word, and a text in which the constraints are looked for. The
constraints may stand in any order and among anything else.
-/

namespace SqlSurvey.Ddl

open Pattern

/-- The name and the type word that a column definition begins with. -/
def columnHead : Pattern := atStart ++ name 1 ++ blanks ++ group 2 word

/-- PRIMARY KEY, wherever it stands. -/
def primaryKeyPhrase : Pattern := phrase "PRIMARY" ["KEY"]

/-- AUTOINCREMENT, also with an underscore. -/
def autoIncrementPhrase : Pattern :=
  keyword "AUTO".toList ++ maybe (exactly '_') ++ keyword "INCREMENT".toList

/-- NOT NULL, wherever it stands. -/
def notNullPhrase : Pattern := phrase "NOT" ["NULL"]

/-- A default that another constraint, or blanks at the end, follow: as short as can be. -/
def defaultBeforeConstraint : Pattern :=
  atWordEdge ++ keyword "DEFAULT".toList ++ blanks ++ group 1 (many (fun _ => true) .shortest) ++ blanks ++
    either (phrase "NOT" ["NULL"]) (either (keyword "PRIMARY".toList) (either (keyword "FOREIGN".toList)
      (either (keyword "UNIQUE".toList) (either (keyword "CHECK".toList) atEnd))))

/-- A default that is the last word. -/
def defaultAtEnd : Pattern :=
  atWordEdge ++ keyword "DEFAULT".toList ++ blanks ++ group 1 (many (fun c => !Text.isBlank c) .longest) ++
    gap ++ atEnd

/-- The default among the constraints, trimmed. -/
def defaultIn (constraints : List Char) : Option (List Char) :=
  ((defaultBeforeConstraint.find constraints).or (defaultAtEnd.find constraints)).map fun h =>
    Text.trim (h.groupText 1)

/-- The column that a definition declares. -/
def readColumn? (definition : List Char) : Option Column :=
  (columnHead.find (Text.trim definition)).map fun h =>
    let constraints := h.rest
    let column := Column.ofType (String.ofList (h.groupText 1)) (String.ofList (h.groupText 2))
    let column := if primaryKeyPhrase.occursIn constraints then column.primaryKey else column
    let column := if autoIncrementPhrase.occursIn constraints then column.autoIncrement else column
    let column := if notNullPhrase.occursIn constraints then column.notNull else column
    match defaultIn constraints with
    | some text => column.withDefault (String.ofList text)
    | none => column

/-! ## The column of a definition, field by field -/

/-- The column that a hit of the head of its definition declares. -/
def columnOf (h : Hit) : Column where
  name := String.ofList (h.groupText 1)
  type := String.ofList (Text.upper (h.groupText 2))
  nullable := !(primaryKeyPhrase.occursIn h.rest || notNullPhrase.occursIn h.rest)
  isPrimaryKey := primaryKeyPhrase.occursIn h.rest
  isAutoIncrement := autoIncrementPhrase.occursIn h.rest
  defaultValue := (defaultIn h.rest).map String.ofList

theorem readColumn?_eq (definition : List Char) :
    readColumn? definition = (columnHead.find (Text.trim definition)).map columnOf := by
  refine congrArg (fun f => (columnHead.find (Text.trim definition)).map f) (funext fun h => ?_)
  dsimp only [columnOf]
  generalize primaryKeyPhrase.occursIn h.rest = isPrimary
  generalize autoIncrementPhrase.occursIn h.rest = isAuto
  generalize notNullPhrase.occursIn h.rest = isNotNull
  cases isPrimary <;> cases isAuto <;> cases isNotNull <;> cases defaultIn h.rest <;>
    simp [Column.ofType, Column.primaryKey, Column.autoIncrement, Column.notNull, Column.withDefault]

end SqlSurvey.Ddl
