import SqlSurvey.Files.Path

/-!
# Failures

Why a command cannot do its work, and how each cause is put into words.
-/

namespace SqlSurvey

/-- Why a command fails. -/
inductive Failure where
  /-- A file that is not there or is not text. -/
  | unreadable (path : Path)
  /-- A configuration that breaks the rules of its format. -/
  | invalidConfig (path : Path)
  /-- A functions file in a language that is not known by its extension. -/
  | unsupportedLanguage (path : Path)
  /-- No files of the project are named or found. -/
  | nothingFound
  /-- A schema is asked for, but there is none. -/
  | noSchema
  /-- Functions are asked for, but there are none. -/
  | noFunctions
deriving DecidableEq, Repr

namespace Failure

/-- The words for a cause. -/
def message : Failure → String
  | unreadable p => "failed to read " ++ p.toString
  | invalidConfig p => "invalid configuration in " ++ p.toString
  | unsupportedLanguage p => "unsupported source language for " ++ p.toString
  | nothingFound => "Could not find schema.ts or index.ts files"
  | noSchema => "No schema file configured"
  | noFunctions => "No functions file configured"

end Failure

end SqlSurvey
