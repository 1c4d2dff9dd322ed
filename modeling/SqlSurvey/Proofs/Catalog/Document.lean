import SqlSurvey.Catalog.Document
import SqlSurvey.Proofs.Json.Record

/-!
# Catalogues read back from their documents

Each part of a catalogue is read back from its JSON form, a function also when it has no description and the field
for it is left out. Line numbers are machine words, and as such they are written and read without loss.
-/

namespace SqlSurvey

open Json

namespace Query

@[simp] theorem Kind.ofJson?_name (k : Kind) : Kind.ofJson? (.string k.name) = some k := by cases k <;> decide

theorem ofJson?_toJson (q : Query) : ofJson? q.toJson = some q := by
  rw [ofJson?, toJson, parts?_object rfl (by decide)]
  simp [asString?, asNat?]

theorem writable_toJson {q : Query} (h : q.line < naturalEnd) : q.toJson.Writable := by
  refine .object ?_
  simp [Writable.string, Writable.natural h]

end Query

theorem Param.ofJson?_toJson (p : Param) : ofJson? p.toJson = some p := by
  rw [ofJson?, toJson, parts?_object rfl (by decide)]
  simp [asString?]

theorem Param.writable_toJson (p : Param) : p.toJson.Writable := by
  refine .object ?_
  simp [Writable.string]

namespace FunctionEntry

variable (f : FunctionEntry)

/-- The lines of a function and of its queries are machine words. -/
structure LinesFit : Prop where
  line : f.line < naturalEnd
  queries : ∀ q ∈ f.sqlQueries, q.line < naturalEnd

/-- The parts of a function, a missing description as null. -/
theorem parts?_toJson : parts? fields f.toJson = some [.string f.name, .array (f.params.map Param.toJson),
    .string f.returnType, .array (f.sqlQueries.map Query.toJson), .strings f.tablesUsed, .bool f.isExported,
    .ofOption f.description, .natural f.line] := by
  -- the field for the description is there or not, and each of the others is there once
  cases hDescription : f.description <;>
    simp [parts?, fields, toJson, Field.value?, Field.name, Field.absent?, hDescription, ofOption]

theorem ofJson?_toJson : ofJson? f.toJson = some f := by
  have hParams := asList?_array (l := f.params) fun p _ => p.ofJson?_toJson
  have hQueries := asList?_array (l := f.sqlQueries) fun q _ => q.ofJson?_toJson
  rw [ofJson?, parts?_toJson]
  simp [asString?, asBool?, asNat?, hParams, hQueries]

theorem writable_toJson {f : FunctionEntry} (h : f.LinesFit) : f.toJson.Writable := by
  have hParams := writable_array (l := f.params) fun p _ => p.writable_toJson
  have hQueries := writable_array (l := f.sqlQueries) fun q hq => Query.writable_toJson (h.queries q hq)
  refine .object ?_
  cases f.description <;>
    simp [Writable.string, Writable.bool, Writable.natural h.line, writable_strings, hParams, hQueries]

end FunctionEntry

namespace Catalog

theorem ofJson?_toJson (c : Catalog) : ofJson? c.toJson = some c := by
  have hFunctions := asList?_array (l := c.functions) fun f _ => f.ofJson?_toJson
  rw [ofJson?, toJson, parts?_object rfl (by decide)]
  simp [hFunctions]

theorem writable_toJson {c : Catalog} (h : ∀ f ∈ c.functions, f.LinesFit) : c.toJson.Writable := by
  refine .object ?_
  simp [writable_array (l := c.functions) fun f hf => FunctionEntry.writable_toJson (h f hf)]

end Catalog

end SqlSurvey
