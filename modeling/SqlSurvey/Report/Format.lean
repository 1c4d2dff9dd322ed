/-!
# Forms of reports

Every report is written either as lines for people or as JSON.
-/

namespace SqlSurvey

/-- The form of a report. -/
inductive Format where
  | human
  | json
deriving DecidableEq, Repr

namespace Format

/-- The word for a form. -/
def name : Format → String
  | human => "human"
  | json => "json"

/-- The form that a word stands for. -/
def ofName? (word : String) : Option Format :=
  if word = "human" then some human else if word = "json" then some json else none

theorem ofName?_name (f : Format) : ofName? f.name = some f := by cases f <;> decide

end Format

end SqlSurvey
