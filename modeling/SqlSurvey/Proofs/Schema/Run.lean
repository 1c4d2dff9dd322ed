import SqlSurvey.Proofs.Schema.Events

/-!
# Recovering a schema from any sequence of texts

The law of a whole run, in terms of the events that its statements yield: which names the schema has and
in which order, and which definition and which indexes the table of a name ends up with.
-/

namespace SqlSurvey

namespace Ddl

/-! ## A definition brings no index -/

theorem addItem_indexes (t : Table) (item : List Char) : (addItem t item).indexes = t.indexes := by
  unfold addItem
  split
  · rfl
  · split
    · rfl
    · split
      · rfl
      · split <;> rfl

theorem foldl_addItem_indexes (t : Table) (items : List (List Char)) :
    (items.foldl addItem t).indexes = t.indexes := by
  induction items generalizing t with
  | nil => rfl
  | cons item items ih => rw [List.foldl_cons, ih, addItem_indexes]

/-- A table that has just been read has no index. -/
theorem readTable?_indexes {sql : List Char} {t : Table} (h : readTable? sql = some t) :
    t.indexes = [] := by
  simp only [readTable?, Option.bind_eq_bind, Option.bind_eq_some_iff, Option.pure_def,
    Option.some.injEq] at h
  obtain ⟨hit, -, body, -, rfl⟩ := h
  exact foldl_addItem_indexes _ _

end Ddl

/-- The table of an event that a text yields has no index. -/
theorem SchemaEvent.indexes_of_mem_ofText {sql : List Char} {t : Table} (h : .table t ∈ ofText sql) :
    t.indexes = [] := by
  obtain ⟨statement, -, hTable⟩ := exists_readTable?_of_mem_ofText h
  exact Ddl.readTable?_indexes hTable

namespace Schema

open SchemaEvent

/-- What a run of events from the empty schema comes to. -/
structure Law (events : List SchemaEvent) (final : Schema) : Prop where
  /-- The names are those of the tables created, where they first came up. -/
  names : final.tableNames = (createdNames events).eraseDups
  /-- The table of a name is the one created last, with exactly the indexes put on the name afterwards. -/
  last : ∀ before t after, events = before ++ .table t :: after → t.name ∉ createdNames after →
    final.table? t.name = some { t with indexes := indexesOn t.name after }
  /-- An index on a name that no table has yet changes nothing. -/
  early : ∀ before name i after, events = before ++ .index name i :: after → name ∉ createdNames before →
    (empty.afterEvents before).afterEvent (.index name i) = empty.afterEvents before
  /-- No event changes a table other than the one it is about. -/
  frame : ∀ before e after, events = before ++ e :: after → ∀ name, name ≠ e.target →
    ((empty.afterEvents before).afterEvent e).table? name = (empty.afterEvents before).table? name

/-- Any sequence of texts leaves behind what the law says of the events of their statements. -/
theorem foldl_afterText_law (texts : List (List Char)) :
    Law (texts.flatMap SchemaEvent.ofText) (texts.foldl afterText empty) where
  names := by rw [foldl_afterText, tableNames_afterEvents_empty]
  last := by
    intro before t after hEvents hLast
    -- the table comes from a statement, so it brought no index of its own
    have hMem : SchemaEvent.table t ∈ texts.flatMap SchemaEvent.ofText := by simp [hEvents]
    obtain ⟨text, -, hText⟩ := List.mem_flatMap.1 hMem
    rw [foldl_afterText, hEvents, table?_afterEvents_last _ _ _ _ hLast, indexes_of_mem_ofText hText,
      List.nil_append]
  early := by
    intro before name i after _ hNew
    apply afterEvent_index_of_not_mem
    rwa [tableNames_afterEvents_empty, List.mem_eraseDups]
  frame := by
    intro before e after _ name hName
    exact table?_afterEvent_of_ne _ e hName

end Schema

end SqlSurvey
