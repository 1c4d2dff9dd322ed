import SqlSurvey.Proofs.Schema.Document
import Mathlib.Logic.Function.Iterate

/-!
# Reading a source again

A source that is read once more finds the tables that it has defined. An index that came too early the first time
then joins the table that is there, and every table is created again further on and loses what it had. So a run of
events that creates all the tables there are does not depend on what they were, and reading a source any
number of times comes to the same as reading it once.
-/

namespace SqlSurvey

namespace SchemaEvent

/-- A table that is created is created for the last time somewhere. -/
theorem exists_last_created {name : String} {es : List SchemaEvent} (h : name ∈ createdNames es) :
    ∃ before t after, es = before ++ .table t :: after ∧ t.name = name ∧ name ∉ createdNames after := by
  induction es with
  | nil => simp at h
  | cons e es ih =>
    by_cases hRest : name ∈ createdNames es
    · obtain ⟨before, t, after, rfl, hName, hAfter⟩ := ih hRest
      exact ⟨e :: before, t, after, rfl, hName, hAfter⟩
    · -- no later event creates it, so this one does
      cases e with
      | table t =>
        have hName : name = t.name := by simpa [hRest] using h
        exact ⟨[], t, es, rfl, hName.symm, hRest⟩
      | index other i => exact absurd h hRest

end SchemaEvent

namespace Schema

open SchemaEvent

variable {s : Schema} {es : List SchemaEvent}

/-- An event that creates no table but one that is there leaves the names as they are. -/
theorem tableNames_afterEvent_of_mem {e : SchemaEvent} (h : ∀ name ∈ e.created?, name ∈ s.tableNames) :
    (s.afterEvent e).tableNames = s.tableNames := by
  rw [tableNames_afterEvent]
  cases e with
  | table t => exact if_pos (h t.name rfl)
  | index other i => rfl

/-- So does a run of such events. -/
theorem tableNames_afterEvents_of_subset (h : createdNames es ⊆ s.tableNames) :
    (s.afterEvents es).tableNames = s.tableNames := by
  induction es generalizing s with
  | nil => rfl
  | cons e es ih =>
    have hFirst : (s.afterEvent e).tableNames = s.tableNames :=
      tableNames_afterEvent_of_mem fun name hName => h (List.mem_filterMap.2 ⟨e, List.mem_cons_self, hName⟩)
    have hRest : createdNames es ⊆ s.tableNames := fun name hName => by
      obtain ⟨f, hf, hCreated⟩ := List.mem_filterMap.1 hName
      exact h (List.mem_filterMap.2 ⟨f, List.mem_cons_of_mem e hf, hCreated⟩)
    rw [afterEvents_cons, ih (hFirst ▸ hRest), hFirst]

/-- If a run creates just the tables that are there, in the order in which they stand, then all that was there before
is forgotten. -/
theorem afterEvents_of_tableNames (h : s.tableNames = (createdNames es).eraseDups) :
    s.afterEvents es = empty.afterEvents es := by
  have hSubset : createdNames es ⊆ s.tableNames := fun name hName => by rwa [h, List.mem_eraseDups]
  have hNames : (s.afterEvents es).tableNames = (empty.afterEvents es).tableNames := by
    rw [tableNames_afterEvents_of_subset hSubset, h, tableNames_afterEvents_empty]
  have hNodup : (empty.afterEvents es).tableNames.Nodup := nodup_tableNames_afterEvents (s := empty) List.nodup_nil es
  refine eq_of_table? hNodup hNames fun t ht => ?_
  have hCreated : t.name ∈ createdNames es := by
    rw [← List.mem_eraseDups, ← tableNames_afterEvents_empty]
    exact List.mem_map_of_mem ht
  have hFound : (empty.afterEvents es).table? t.name = some t := table?_of_mem hNodup ht
  -- both runs end with what comes from the last creation of the table on
  obtain ⟨before, u, after, rfl, hName, hLast⟩ := exists_last_created hCreated
  rw [← hName] at hLast hFound ⊢
  rw [← hFound, table?_afterEvents_last _ _ _ _ hLast, table?_afterEvents_last _ _ _ _ hLast]

/-- Reading a source once more, after it has been read into an empty schema, changes nothing. -/
theorem afterSource_ofSource (source : List Char) : (ofSource source).afterSource source = ofSource source := by
  rw [ofSource, afterSource_eq_afterEvents, afterSource_eq_afterEvents]
  exact afterEvents_of_tableNames (tableNames_afterEvents_empty _)

/-- A source that is read one or more times defines the schema that it defines when it is read once. -/
theorem iterate_afterSource (source : List Char) (again : Nat) :
    (fun s : Schema => s.afterSource source)^[again + 1] empty = ofSource source := by
  induction again with
  | zero => rfl
  | succ n ih => rw [Function.iterate_succ_apply', ih, afterSource_ofSource]

/-- An index before its table, and a table that is created twice. -/
example :
    let source := ("`CREATE INDEX i ON t (a); CREATE TABLE t (a INT)`; `CREATE INDEX j ON t (a)`; " ++
      "'CREATE TABLE t (b INT)'; 'CREATE INDEX k ON t (b)'").toList
    ((ofSource source).afterSource source).tables.map (fun t => (t.columnNames, t.indexes.map Index.name)) =
      [(["b"], ["k"])] := by
  decide +kernel

end Schema

end SqlSurvey
