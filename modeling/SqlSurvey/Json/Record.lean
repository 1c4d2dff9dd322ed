import SqlSurvey.Json.Basic

/-!
# Reading records from JSON

A record is an object with a field for each of its parts, or an array with its parts in order. Fields that the
record does not know are ignored, but no field it knows may come twice. Each part must have exactly
its type.
-/

namespace SqlSurvey.Json

/-- A string. -/
def asString? : Json → Option String
  | string s => some s
  | _ => none

/-- A truth value. -/
def asBool? : Json → Option Bool
  | bool b => some b
  | _ => none

/-- A natural number. -/
def asNat? : Json → Option Nat
  | natural n => some n
  | _ => none

/-- A list of values of one type. -/
def asList? {α : Type} (item? : Json → Option α) : Json → Option (List α)
  | array items => items.mapM item?
  | _ => none

/-- A string or null. -/
def asOptionalString? : Json → Option (Option String)
  | null => some none
  | string s => some (some s)
  | _ => none

/-- A field of a record, by its name. -/
inductive Field where
  /-- A field that an object must have. -/
  | required (name : String)
  /-- A field that is null when an object does not have it. -/
  | optional (name : String)

namespace Field

/-- The name of a field. -/
def name : Field → String
  | required n => n
  | optional n => n

/-- What a field is when an object does not have it. -/
def absent? : Field → Option Json
  | required _ => none
  | optional _ => some null

/-- The value of a field among the fields of an object. -/
def value? (field : Field) (fields : List (String × Json)) : Option Json :=
  match fields.filter fun f => f.1 == field.name with
  | [] => field.absent?
  | [f] => some f.2
  | _ => none

end Field

/-- The parts of a record, in the order of its fields. -/
def parts? (record : List Field) : Json → Option (List Json)
  | object fields => record.mapM fun field => field.value? fields
  | array items => if items.length = record.length then some items else none
  | _ => none

end SqlSurvey.Json
