/-!
# Dialects

The forms of the language that a source file may be written in, and the names and file name extensions that
stand for each.
-/

namespace SqlSurvey.TypeScript

/-- The two forms of the language: with type assertions in angle brackets, or with markup in expressions. Plain
JavaScript is read as the former. -/
inductive Dialect where
  | typescript
  | tsx
deriving DecidableEq, Repr

namespace Dialect

/-- The word for a dialect. -/
def name : Dialect → String
  | typescript => "typescript"
  | tsx => "tsx"

/-- The dialect that a word stands for, in any case of its letters. -/
def ofName? (word : String) : Option Dialect :=
  let lower := String.ofList (word.toList.map Char.toLower)
  if ["typescript", "ts", "javascript", "js"].contains lower then some typescript
  else if ["tsx", "jsx"].contains lower then some tsx
  else none

/-- The message for a word that stands for no dialect. -/
def unknownName (word : String) : String :=
  "Unknown language: '" ++ word ++ "'. Supported languages: typescript, tsx."

/-- The dialect of files with an extension. -/
def ofExtension? (extension : String) : Option Dialect :=
  if ["ts", "mts", "cts", "js", "mjs", "cjs"].contains extension then some typescript
  else if ["tsx", "jsx"].contains extension then some tsx
  else none

theorem ofName?_name (d : Dialect) : ofName? d.name = some d := by
  cases d <;> decide +kernel

end Dialect

end SqlSurvey.TypeScript
