import SqlSurvey.Proofs.Ddl.Statement
import SqlSurvey.Proofs.Literal.Templates
import SqlSurvey.Proofs.Schema.Events

/-!
# A schema is recovered from its definitions

The events of a schema, in any order in which it may be written down, lead back to it; and the literals
of a program text that look like SQL are read as the events whose statements they are.
-/

namespace SqlSurvey

namespace Schema

open SchemaEvent

variable {s : Schema} {events : List SchemaEvent}

/-! ## The events of a schema -/

theorem createdNames_eq_map (events : List SchemaEvent) :
    createdNames events = (events.filterMap createdTable?).map Table.name := by
  rw [createdNames, List.map_filterMap]
  exact List.filterMap_congr fun e _ => by cases e <;> rfl

theorem Arranged.createdNames (h : s.Arranged events) : createdNames events = s.tableNames := by
  rw [createdNames_eq_map, h.tables, List.map_map]
  rfl

/-- Before the table of a name is created, no index is put on the name. -/
theorem Arranged.indexesOn_before (h : s.Arranged events) {before after : List SchemaEvent} {name : String}
    (hEvents : events = before ++ after) (hNew : name ∉ SchemaEvent.createdNames before) :
    indexesOn name before = [] := by
  rw [indexesOn, List.filterMap_eq_nil_iff]
  intro e he
  cases e with
  | table t => rfl
  | index other i =>
    obtain ⟨l, r, rfl⟩ := List.append_of_mem he
    have hOther := h.after l other i (r ++ after) (by rw [hEvents, List.append_assoc, List.cons_append])
    have hNe : other ≠ name := by
      rintro rfl
      exact hNew (by rw [createdNames_append]; exact List.mem_append_left _ hOther)
    rw [indexOn?, if_neg hNe]

/-- The events of a schema lead back to it, in whichever order it has been written down. -/
theorem afterEvents_of_arranged (hNodup : s.tableNames.Nodup) (h : s.Arranged events) :
    empty.afterEvents events = s := by
  refine eq_of_table? hNodup ?_ fun t ht => ?_
  · rw [tableNames_afterEvents_empty, h.createdNames, eraseDups_of_nodup hNodup]
  · have hMem : t.withoutIndexes ∈ events.filterMap createdTable? := by
      rw [h.tables]
      exact List.mem_map_of_mem ht
    obtain ⟨e, he, hTable⟩ := List.mem_filterMap.1 hMem
    obtain rfl : e = .table t.withoutIndexes := by
      cases e with
      | table u => exact congrArg _ (Option.some.inj hTable)
      | index name i => cases hTable
    obtain ⟨before, after, hEvents⟩ := List.append_of_mem he
    -- the name is created this one time
    have hNames : (createdNames before ++ t.name :: createdNames after).Nodup := by
      rw [← h.createdNames, hEvents, createdNames_append] at hNodup
      exact hNodup
    have hAfter : t.name ∉ createdNames after :=
      (List.nodup_cons.1 (List.nodup_append.1 hNames).2.1).1
    have hBefore : t.name ∉ createdNames before := fun hName =>
      (List.nodup_append.1 hNames).2.2 _ hName _ List.mem_cons_self rfl
    have hIndexes : indexesOn t.name after = t.indexes := by
      rw [← h.indexes t ht, hEvents, indexesOn_append, h.indexesOn_before hEvents hBefore]
      rfl
    have hLast := table?_afterEvents_last empty before after t.withoutIndexes hAfter
    rw [hEvents]
    refine hLast.trans ?_
    show some { t with indexes := [] ++ indexesOn t.name after } = some t
    rw [hIndexes]
    rfl

/-- What is written down for a schema can be read back, statement by statement. -/
theorem Arranged.renderable (h : s.Arranged events) (hs : s.Renderable) : ∀ e ∈ events, e.Renderable := by
  intro e he
  cases e with
  | table t =>
    have hMem : t ∈ events.filterMap createdTable? := List.mem_filterMap.2 ⟨.table t, he, rfl⟩
    rw [h.tables] at hMem
    obtain ⟨u, hu, rfl⟩ := List.mem_map.1 hMem
    obtain ⟨hName, hColumns, hKey, hDeclared, hForeign⟩ := hs.tables u hu
    exact .table ⟨hName, hColumns, hKey, hDeclared, hForeign⟩ rfl
  | index name i =>
    obtain ⟨before, after, hEvents⟩ := List.append_of_mem he
    have hCreated := h.after before name i after hEvents
    have hName : name ∈ s.tableNames := by
      rw [← h.createdNames, hEvents, createdNames_append]
      exact List.mem_append_left _ hCreated
    obtain ⟨t, ht, rfl⟩ := List.mem_map.1 hName
    have hIndex : i ∈ t.indexes := by
      rw [← h.indexes t ht]
      exact List.mem_filterMap.2 ⟨_, he, by simp [indexOn?]⟩
    exact .index (hs.tables t ht).name (hs.indexes t ht i hIndex)

/-! ## Each table with its indexes after it -/

theorem indexesOn_events (t : Table) (name : String) :
    indexesOn name t.events = if t.name = name then t.indexes else [] := by
  rw [Table.events, indexesOn_table_cons, indexesOn, List.filterMap_map]
  by_cases h : t.name = name <;> simp [Function.comp_def, indexOn?, h]

/-- An index is written down after its own table. -/
theorem mem_createdNames_of_flatMap {ts : List Table} {before rest : List SchemaEvent} {name : String}
    {i : Index} (h : ts.flatMap Table.events = before ++ .index name i :: rest) : name ∈ createdNames before := by
  induction ts generalizing before with
  | nil => simp at h
  | cons t ts ih =>
    rw [List.flatMap_cons, List.append_eq_append_iff] at h
    rcases h with ⟨a, rfl, ha⟩ | ⟨a, hTable, ha⟩
    · -- the index stands after all that is written down for the table
      rw [createdNames_append]
      exact List.mem_append_right _ (ih ha)
    · cases a with
      | nil =>
        have hNone : name ∈ createdNames [] := ih ha.symm
        exact absurd hNone List.not_mem_nil
      | cons e a =>
        obtain ⟨rfl, -⟩ := List.cons.inj ha
        cases before with
        | nil => simp [Table.events] at hTable
        | cons b before =>
          obtain ⟨rfl, hIndexes⟩ := List.cons.inj hTable
          have hMem : SchemaEvent.index name i ∈ t.indexes.map (.index t.name) := by simp [hIndexes]
          obtain ⟨j, -, hj⟩ := List.mem_map.1 hMem
          obtain ⟨rfl, -⟩ := SchemaEvent.index.inj hj
          exact List.mem_cons_self

/-- A schema may be written down table by table. -/
theorem arranged_events (h : s.tableNames.Nodup) : s.Arranged s.events where
  tables := by
    have hOne : ∀ t : Table, t.events.filterMap createdTable? = [t.withoutIndexes] := by
      intro t
      have hNone : (t.indexes.map (SchemaEvent.index t.name)).filterMap createdTable? = [] := by
        simp [createdTable?]
      exact congrArg (t.withoutIndexes :: ·) hNone
    rw [events, List.filterMap_flatMap, List.map_eq_flatMap]
    exact List.flatMap_congr fun t _ => hOne t
  after := fun _ _ _ _ hEvents => mem_createdNames_of_flatMap hEvents
  indexes := by
    obtain ⟨ts⟩ := s
    show ∀ t ∈ ts, indexesOn t.name (ts.flatMap Table.events) = t.indexes
    simp only [tableNames] at h
    induction ts with
    | nil => simp
    | cons u ts ih =>
      obtain ⟨hNew, hNames⟩ := List.nodup_cons.1 h
      have hOther : ∀ name, name ∉ ts.map Table.name → indexesOn name (ts.flatMap Table.events) = [] := by
        intro name hName
        rw [indexesOn, List.filterMap_flatMap, List.flatMap_eq_nil_iff]
        intro t ht
        have hNe : t.name ≠ name := fun hEq => hName (List.mem_map.2 ⟨t, ht, hEq⟩)
        exact (indexesOn_events t name).trans (if_neg hNe)
      intro t ht
      rw [List.flatMap_cons, indexesOn_append, indexesOn_events]
      rcases List.mem_cons.1 ht with rfl | ht
      · rw [if_pos rfl, hOther _ hNew, List.append_nil]
      · have hNe : u.name ≠ t.name := fun hEq => hNew (List.mem_map.2 ⟨t, ht, hEq.symm⟩)
        rw [if_neg hNe, List.nil_append, ih hNames t ht]

/-! ## From program text to a schema -/

/-- Every statement that is written down looks like SQL. -/
theorem looksLikeSql_render (e : SchemaEvent) : looksLikeSql e.render = true := by
  obtain ⟨s, hs⟩ := exists_render_eq e
  have hStart : Text.trimStart ("CREATE".toList ++ (s ++ [')'])) = "CREATE".toList ++ (s ++ [')']) :=
    List.dropWhile_cons_of_neg (by decide)
  have hTake : ("CREATE".toList ++ (s ++ [')'])).take "CREATE".toList.length = "CREATE".toList := List.take_left
  rw [hs, List.append_assoc, looksLikeSql, List.any_eq_true]
  refine ⟨"CREATE", by decide, ?_⟩
  rw [hStart, hTake]
  rfl

/-- Program text defines a schema when the literals that look like SQL are the statements of that schema. -/
theorem ofSource_text {code : Literal.Code} (hClosed : code.Closed none) (hs : s.Renderable)
    (h : s.Arranged events)
    (hTexts : ((code.occurrences []).map fun o => Text.trim o.body).filter looksLikeSql =
      events.map SchemaEvent.render) : ofSource code.text = s := by
  have hEvents : (events.map SchemaEvent.render).flatMap ofText = events := by
    rw [List.flatMap_map]
    exact (List.flatMap_congr fun e he => ofText_render (h.renderable hs e he)).trans
      (List.flatMap_singleton' _)
  have hFold : ofSource code.text = ((Fragment.allIn code.text).map Fragment.text).foldl afterText empty := by
    rw [List.foldl_map]
    rfl
  rw [hFold, Literal.map_text_allIn hClosed, hTexts, foldl_afterText, hEvents,
    afterEvents_of_arranged hs.names h]

/-- Recovery undoes rendering: a schema that is written down in templates is the schema that the program text
defines. -/
theorem ofSource_programText {before : List Char} {templates : List (List Char × List Char)} (hs : s.Renderable)
    (h : s.Arranged events) (hBefore : Literal.Quiet before) (hAfter : ∀ t ∈ templates, Literal.Quiet t.2)
    (hStatements : templates.map Prod.fst = events.map SchemaEvent.render) :
    ofSource (Literal.programText before templates) = s := by
  have hVerbatim : ∀ t ∈ templates, Literal.Verbatim t.1 := by
    intro t ht c hc
    have hMem : t.1 ∈ events.map SchemaEvent.render := hStatements ▸ List.mem_map_of_mem ht
    obtain ⟨e, he, hRender⟩ := List.mem_map.1 hMem
    -- statements have none of the characters with a meaning in templates
    have hTame := Sql.isTame_of_mem (tame_render (h.renderable hs e he)) c (hRender ▸ hc)
    refine ⟨?_, ?_, ?_⟩ <;> rintro rfl <;> exact absurd hTame (by decide)
  have hClosed := Literal.Code.closed_ofTemplates hBefore fun t ht => ⟨hVerbatim t ht, hAfter t ht⟩
  rw [← Literal.Code.text_ofTemplates]
  refine ofSource_text hClosed hs h ?_
  have hBodies : ((Literal.Code.ofTemplates before templates).occurrences []).map Literal.Occurrence.body =
      events.map SchemaEvent.render := by rw [Literal.Code.map_body_ofTemplates, hStatements]
  have hTrimmed := congrArg (List.map Text.trim) hBodies
  rw [List.map_map, List.map_map] at hTrimmed
  show List.filter looksLikeSql (List.map (Text.trim ∘ Literal.Occurrence.body) _) = _
  rw [hTrimmed, List.filter_eq_self.2]
  · exact List.map_congr_left fun e _ => trim_render e
  · intro u hu
    obtain ⟨e, -, rfl⟩ := List.mem_map.1 hu
    rw [Function.comp, trim_render]
    exact looksLikeSql_render e

/-- Two tables and an index, with a key of either kind, a default and a foreign key. -/
theorem ofSource_programText_posts :
    ofSource (Literal.programText "db.exec(".toList [
      ("CREATE TABLE users (id INTEGER PRIMARY KEY AUTOINCREMENT, age INT NOT NULL DEFAULT -1)".toList,
        ");\ndb.exec(".toList),
      ("CREATE UNIQUE INDEX by_age ON users (age, id)".toList, ");\ndb.exec(".toList),
      (("CREATE TABLE posts (author INTEGER, day TEXT NOT NULL, PRIMARY KEY (author, day), " ++
        "FOREIGN KEY (author) REFERENCES users(id) ON DELETE SET NULL)").toList, ");\n".toList)]) =
    ⟨[{ name := "users"
        columns := [⟨"id", "INTEGER", false, true, true, none⟩, ⟨"age", "INT", false, false, false, some "-1"⟩]
        primaryKey := ["id"]
        foreignKeys := []
        indexes := [⟨"by_age", ["age", "id"], true⟩] },
      { name := "posts"
        columns := [⟨"author", "INTEGER", true, false, false, none⟩, ⟨"day", "TEXT", false, false, false, none⟩]
        primaryKey := ["author", "day"]
        foreignKeys := [⟨"author", "users", "id", some "SET NULL", none⟩]
        indexes := [] }]⟩ :=
  ofSource_programText (by decide +kernel) (arranged_events (by decide)) (by decide) (by decide +kernel)
    (by decide +kernel)

end Schema

end SqlSurvey
