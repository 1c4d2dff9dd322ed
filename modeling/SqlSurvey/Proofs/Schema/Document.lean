import SqlSurvey.Literal.Fragment
import SqlSurvey.Schema.Document
import SqlSurvey.Proofs.Json.Record
import SqlSurvey.Proofs.Schema.Events

/-!
# Schemas read back from their documents

Each part of a schema is read back from its JSON form. The tables of a document are added one after the other, so a
schema that is read has distinct names whatever its document says, and a schema with distinct names is read back
as it is.
-/

namespace SqlSurvey

open Json

/-! ## The parts -/

theorem Column.ofJson?_toJson (c : Column) : ofJson? c.toJson = some c := by
  rw [ofJson?, toJson, parts?_object rfl (by decide)]
  simp [asString?, asBool?]

theorem Column.writable_toJson (c : Column) : c.toJson.Writable := by
  refine .object ?_
  simp [Writable.string, Writable.bool, writable_ofOption]

theorem ForeignKey.ofJson?_toJson (k : ForeignKey) : ofJson? k.toJson = some k := by
  rw [ofJson?, toJson, parts?_object rfl (by decide)]
  simp [asString?]

theorem ForeignKey.writable_toJson (k : ForeignKey) : k.toJson.Writable := by
  refine .object ?_
  simp [Writable.string, writable_ofOption]

theorem Index.ofJson?_toJson (i : Index) : ofJson? i.toJson = some i := by
  rw [ofJson?, toJson, parts?_object rfl (by decide)]
  simp [asString?, asBool?]

theorem Index.writable_toJson (i : Index) : i.toJson.Writable := by
  refine .object ?_
  simp [Writable.string, Writable.bool, writable_strings]

theorem Table.ofJson?_toJson (t : Table) : ofJson? t.toJson = some t := by
  have hColumns := asList?_array (l := t.columns) fun c _ => c.ofJson?_toJson
  have hForeignKeys := asList?_array (l := t.foreignKeys) fun k _ => k.ofJson?_toJson
  have hIndexes := asList?_array (l := t.indexes) fun i _ => i.ofJson?_toJson
  rw [ofJson?, toJson, parts?_object rfl (by decide)]
  simp [asString?, hColumns, hForeignKeys, hIndexes]

theorem Table.writable_toJson (t : Table) : t.toJson.Writable := by
  have hColumns := writable_array (l := t.columns) fun c _ => c.writable_toJson
  have hForeignKeys := writable_array (l := t.foreignKeys) fun k _ => k.writable_toJson
  have hIndexes := writable_array (l := t.indexes) fun i _ => i.writable_toJson
  refine .object ?_
  simp [Writable.string, writable_strings, hColumns, hForeignKeys, hIndexes]

namespace Schema

/-! ## Tables added one after the other -/

/-- The schema has the tables of a list, each name where it first comes up and with what it last stands for. -/
structure HasLast (s : Schema) (ts : List Table) : Prop where
  nodup : s.tableNames.Nodup
  names : s.tableNames = (ts.map Table.name).eraseDups
  last : ∀ t ∈ s.tables, ts.reverse.find? (fun u => u.name == t.name) = some t

theorem ofTables_concat (ts : List Table) (t : Table) : ofTables (ts ++ [t]) = (ofTables ts).add t := by
  rw [ofTables, List.foldl_append]
  rfl

theorem tableNames_ofTables (ts : List Table) : (ofTables ts).tableNames = (ts.map Table.name).eraseDups := by
  induction ts using List.reverseRecOn with
  | nil => rfl
  | append_singleton ts t ih =>
    rw [ofTables_concat, tableNames_add, ih, List.map_append, List.map_singleton, eraseDups_concat]

theorem table?_ofTables (ts : List Table) (name : String) :
    (ofTables ts).table? name = ts.reverse.find? fun u => u.name == name := by
  induction ts using List.reverseRecOn with
  | nil => rfl
  | append_singleton ts t ih =>
    rw [ofTables_concat, List.reverse_append, List.reverse_singleton, List.singleton_append]
    by_cases hName : t.name = name
    · rw [← hName, table?_add_self, List.find?_cons_of_pos (by simp)]
    · rw [table?_add_of_ne _ _ (Ne.symm hName), ih, List.find?_cons_of_neg (by simpa using hName)]

theorem hasLast_ofTables (ts : List Table) : (ofTables ts).HasLast ts where
  nodup := by
    rw [tableNames_ofTables]
    exact nodup_eraseDups _
  names := tableNames_ofTables ts
  last t ht := by
    rw [← table?_ofTables]
    refine table?_of_mem ?_ ht
    rw [tableNames_ofTables]
    exact nodup_eraseDups _

/-- Tables with distinct names are added as they are. -/
theorem ofTables_of_nodup {ts : List Table} (h : (ts.map Table.name).Nodup) : ofTables ts = ⟨ts⟩ := by
  induction ts using List.reverseRecOn with
  | nil => rfl
  | append_singleton ts t ih =>
    rw [List.map_append, List.map_singleton, List.nodup_append] at h
    have hNew : ¬ (⟨ts⟩ : Schema).hasTable t.name = true := fun hOld =>
      h.2.2 _ (hasTable_iff.1 hOld) _ (List.mem_singleton_self _) rfl
    rw [ofTables_concat, ih h.1, add, if_neg hNew]

/-! ## Reading a schema -/

/-- The tables that a document lists. -/
def listed? (j : Json) : Option (List Table) :=
  (parts? [.required "tables"] j).bind fun
    | [tables] => asList? Table.ofJson? tables
    | _ => none

/-- A schema that is read has the tables that its document lists. -/
theorem ofJson?_eq (j : Json) : ofJson? j = (listed? j).map ofTables := by
  rw [ofJson?, listed?]
  cases parts? [.required "tables"] j with
  | none => rfl
  | some parts =>
    match parts with
    | [] => rfl
    | [tables] => cases h : asList? Table.ofJson? tables <;> simp [h]
    | _ :: _ :: _ => rfl

theorem ofJson?_toJson {s : Schema} (h : s.tableNames.Nodup) : ofJson? s.toJson = some s := by
  have hTables := asList?_array (l := s.tables) fun t _ => t.ofJson?_toJson
  rw [ofJson?_eq, listed?, toJson, parts?_object rfl (by decide)]
  simp [hTables, ofTables_of_nodup h]

theorem writable_toJson (s : Schema) : s.toJson.Writable := by
  refine .object ?_
  simp [writable_array (l := s.tables) fun t _ => t.writable_toJson]

/-! ## Schemas that can be reached -/

/-- A schema that comes about by adding tables, by changing a table under its name, by taking in texts and sources,
and by reading documents. -/
inductive Reachable : Schema → Prop where
  | empty : Reachable empty
  | add {s : Schema} (h : Reachable s) (t : Table) : Reachable (s.add t)
  | modify {s : Schema} (h : Reachable s) (name : String) (f : Table → Table)
      (hf : ∀ t, t.name = name → (f t).name = name) : Reachable (s.modify name f)
  | afterText {s : Schema} (h : Reachable s) (sql : List Char) : Reachable (s.afterText sql)
  | afterSource {s : Schema} (h : Reachable s) (source : List Char) : Reachable (s.afterSource source)
  | read {s : Schema} {j : Json} (h : ofJson? j = some s) : Reachable s

theorem afterSource_eq_afterEvents (s : Schema) (source : List Char) : s.afterSource source =
    s.afterEvents (((Fragment.allIn source).map Fragment.text).flatMap SchemaEvent.ofText) := by
  rw [← foldl_afterText, List.foldl_map]
  rfl

/-- The names of a schema are distinct however it came about. -/
theorem Reachable.nodup {s : Schema} (h : s.Reachable) : s.tableNames.Nodup := by
  induction h with
  | empty => exact List.nodup_nil
  | add _ t ih => exact nodup_tableNames_afterEvent ih (.table t)
  | modify _ name f hf ih => rwa [tableNames_modify _ _ _ hf]
  | afterText _ sql ih => rw [afterText_eq_afterEvents]; exact nodup_tableNames_afterEvents ih _
  | afterSource _ source ih => rw [afterSource_eq_afterEvents]; exact nodup_tableNames_afterEvents ih _
  | read h =>
    rw [ofJson?_eq] at h
    obtain ⟨ts, -, rfl⟩ := Option.map_eq_some_iff.1 h
    exact (hasLast_ofTables ts).nodup

theorem reachable_ofTables (ts : List Table) : (ofTables ts).Reachable := by
  induction ts using List.reverseRecOn with
  | nil => exact .empty
  | append_singleton ts t ih =>
    rw [ofTables_concat]
    exact ih.add t

/-- The schemas with distinct names are just those that can be reached. -/
theorem reachable_iff {s : Schema} : s.Reachable ↔ s.tableNames.Nodup := by
  refine ⟨Reachable.nodup, fun h => ?_⟩
  rw [← show ofTables s.tables = s from ofTables_of_nodup h]
  exact reachable_ofTables s.tables

end Schema

end SqlSurvey
