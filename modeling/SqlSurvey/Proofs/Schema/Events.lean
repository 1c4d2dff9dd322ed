import SqlSurvey.Proofs.Schema.Shapes
import SqlSurvey.Proofs.FirstSeen

/-!
# The schema after a run of events

What a whole run of events leaves behind, table by table: the last definition of a name wins and takes
the place of the first one, and it carries the indexes that were created on it afterwards. One lemma
says what a single event does to the table of a name; the rest is induction on the run.
-/

namespace SqlSurvey

namespace SchemaEvent

/-- The name of the table that an event creates. -/
def created? : SchemaEvent → Option String
  | .table t => some t.name
  | .index _ _ => none

/-- The name of the table that an event is about. -/
def target : SchemaEvent → String
  | .table t => t.name
  | .index name _ => name

/-- The index that an event puts on the table of a name. -/
def indexOn? (name : String) : SchemaEvent → Option Index
  | .table _ => none
  | .index other i => if other = name then some i else none

/-- The names of the tables that a run of events creates, in order and with repetitions. -/
def createdNames (events : List SchemaEvent) : List String := events.filterMap created?

/-- The indexes that a run of events puts on the table of a name, in order. -/
def indexesOn (name : String) (events : List SchemaEvent) : List Index := events.filterMap (indexOn? name)

@[simp] theorem createdNames_nil : createdNames [] = [] := rfl

@[simp] theorem createdNames_table_cons (t : Table) (es : List SchemaEvent) :
    createdNames (.table t :: es) = t.name :: createdNames es := rfl

@[simp] theorem createdNames_index_cons (name : String) (i : Index) (es : List SchemaEvent) :
    createdNames (.index name i :: es) = createdNames es := rfl

@[simp] theorem createdNames_append (es fs : List SchemaEvent) :
    createdNames (es ++ fs) = createdNames es ++ createdNames fs := List.filterMap_append

@[simp] theorem indexesOn_nil (name : String) : indexesOn name [] = [] := rfl

@[simp] theorem indexesOn_table_cons (name : String) (t : Table) (es : List SchemaEvent) :
    indexesOn name (.table t :: es) = indexesOn name es := rfl

@[simp] theorem indexesOn_append (name : String) (es fs : List SchemaEvent) :
    indexesOn name (es ++ fs) = indexesOn name es ++ indexesOn name fs := List.filterMap_append

/-- A table that a text creates is read from one of its statements. -/
theorem exists_readTable?_of_mem_ofText {sql : List Char} {t : Table} (h : .table t ∈ ofText sql) :
    ∃ statement ∈ Sql.statements sql, Ddl.readTable? statement = some t := by
  obtain ⟨statement, hStatement, h⟩ := List.mem_flatMap.1 h
  rw [ofStatement_eq] at h
  exact ⟨statement, hStatement, by simpa using h⟩

end SchemaEvent

namespace Schema

open SchemaEvent

/-! ## Looking a table up after one operation -/

theorem table?_eq_none_iff {s : Schema} {name : String} :
    s.table? name = none ↔ name ∉ s.tableNames := by
  rw [table?, List.find?_eq_none, tableNames, List.mem_map]
  simp

/-- A change that keeps the name is seen under that name. -/
theorem table?_modify_self (s : Schema) (name : String) (f : Table → Table)
    (hf : ∀ t, t.name = name → (f t).name = name) :
    (s.modify name f).table? name = (s.table? name).map f := by
  obtain ⟨ts⟩ := s
  simp only [modify, table?]
  induction ts with
  | nil => rfl
  | cons t ts ih =>
    by_cases h : t.name = name
    · simp [h, hf t h]
    · simpa [h] using ih

/-- A change under one name is not seen under another. -/
theorem table?_modify_of_ne (s : Schema) {name other : String} (f : Table → Table)
    (hf : ∀ t, t.name = name → (f t).name = name) (h : other ≠ name) :
    (s.modify name f).table? other = s.table? other := by
  obtain ⟨ts⟩ := s
  simp only [modify, table?]
  induction ts with
  | nil => rfl
  | cons t ts ih =>
    by_cases ht : t.name = name
    · -- the changed table keeps its name, which is not the other one
      have hft := hf t ht
      simpa [ht, hft, h.symm] using ih
    · by_cases ho : t.name = other
      · simp [ho, h]
      · simpa [ht, ho] using ih

/-- A change under a name that no table has changes nothing. -/
theorem modify_of_not_mem (s : Schema) {name : String} (f : Table → Table) (h : name ∉ s.tableNames) :
    s.modify name f = s := by
  obtain ⟨ts⟩ := s
  simp only [tableNames, List.mem_map, not_exists, not_and] at h
  have hId : ∀ t ∈ ts, (if t.name == name then f t else t) = t := fun t ht => by simp [h t ht]
  simp only [modify, List.map_congr_left hId, List.map_id']

/-- The table that was added last is the one that is found. -/
theorem table?_add_self (s : Schema) (t : Table) : (s.add t).table? t.name = some t := by
  by_cases h : s.hasTable t.name = true
  · -- the old table of that name is replaced, and there is one
    rw [add, if_pos h, table?_modify_self _ _ _ fun _ _ => rfl]
    have hFound : s.table? t.name ≠ none := by
      rw [Ne, table?_eq_none_iff, not_not]
      exact hasTable_iff.1 h
    obtain ⟨u, hu⟩ := Option.ne_none_iff_exists'.1 hFound
    rw [hu, Option.map_some]
  · -- there is none, so the new table at the end is the first of its name
    have hNone : s.table? t.name = none := table?_eq_none_iff.2 fun hm => h (hasTable_iff.2 hm)
    rw [table?] at hNone
    rw [add, if_neg h, table?, List.find?_append, hNone]
    simp

/-- Adding a table leaves the tables of other names alone. -/
theorem table?_add_of_ne (s : Schema) (t : Table) {name : String} (h : name ≠ t.name) :
    (s.add t).table? name = s.table? name := by
  by_cases hs : s.hasTable t.name = true
  · rw [add, if_pos hs, table?_modify_of_ne _ _ (fun _ _ => rfl) h]
  · rw [add, if_neg hs, table?, List.find?_append, table?]
    simp [Ne.symm h]

/-! ## Schemas with distinct names -/

/-- When the names are distinct, each table is found under its name. -/
theorem table?_of_mem {s : Schema} (h : s.tableNames.Nodup) {t : Table} (ht : t ∈ s.tables) :
    s.table? t.name = some t := by
  obtain ⟨ts⟩ := s
  obtain ⟨before, after, rfl⟩ := List.append_of_mem ht
  have hNew : t.name ∉ before.map Table.name := by
    simp only [tableNames, List.map_append, List.map_cons] at h
    exact fun hMem => (List.nodup_append.1 h).2.2 _ hMem _ List.mem_cons_self rfl
  have hBefore : before.find? (fun u => u.name == t.name) = none := by
    rw [List.find?_eq_none]
    intro u hu hName
    exact hNew (List.mem_map.2 ⟨u, hu, by simpa using hName⟩)
  rw [table?, List.find?_append, hBefore, Option.none_or, List.find?_cons_of_pos (by simp)]

/-- Two schemas with the same distinct names and the same table under each name are the same. -/
theorem eq_of_table? {r s : Schema} (hNodup : s.tableNames.Nodup) (hNames : r.tableNames = s.tableNames)
    (h : ∀ t ∈ s.tables, r.table? t.name = some t) : r = s := by
  have hTables : ∀ q : Schema, q.tableNames.Nodup → q.tables.map some = q.tableNames.map q.table? := by
    intro q hq
    rw [tableNames, List.map_map]
    exact List.map_congr_left fun t ht => (table?_of_mem hq ht).symm
  have hSame : r.tables.map some = s.tables.map some := by
    rw [hTables r (hNames ▸ hNodup), hNames, tableNames, List.map_map]
    exact List.map_congr_left h
  have hList : r.tables = s.tables := (List.map_inj_right fun _ _ hab => Option.some.inj hab).1 hSame
  obtain ⟨ts⟩ := r
  obtain rfl : ts = s.tables := hList
  rfl

/-! ## One event -/

/-- An event changes no table but the one it is about. -/
theorem table?_afterEvent_of_ne (s : Schema) (e : SchemaEvent) {name : String} (h : name ≠ e.target) :
    (s.afterEvent e).table? name = s.table? name := by
  cases e with
  | table t => exact table?_add_of_ne s t h
  | index other i => exact table?_modify_of_ne s _ (fun _ ht => ht) h

/-- An index on a table that is not there is dropped. -/
theorem afterEvent_index_of_not_mem (s : Schema) {name : String} (i : Index) (h : name ∉ s.tableNames) :
    s.afterEvent (.index name i) = s := modify_of_not_mem s _ h

/-- An event that does not create the table of a name adds to it the index it brings, if any. -/
theorem table?_afterEvent_of_not_created (s : Schema) (e : SchemaEvent) {name : String}
    (h : e.created? ≠ some name) :
    (s.afterEvent e).table? name =
      (s.table? name).map fun t => { t with indexes := t.indexes ++ (e.indexOn? name).toList } := by
  cases e with
  | table t =>
    have hn : name ≠ t.name := fun hn => h (by simp [created?, hn])
    simp [afterEvent, table?_add_of_ne s t hn, indexOn?]
  | index other i =>
    have hKeeps : ∀ t : Table, t.name = other → (t.addIndex i).name = other := fun _ ht => ht
    by_cases ho : other = name
    · subst ho
      rw [afterEvent, table?_modify_self _ _ _ hKeeps]
      simp [indexOn?, Table.addIndex]
    · rw [afterEvent, table?_modify_of_ne _ _ hKeeps (Ne.symm ho)]
      simp [indexOn?, ho]

/-- The names after an event. -/
theorem tableNames_afterEvent (s : Schema) (e : SchemaEvent) :
    (s.afterEvent e).tableNames = match e.created? with
      | some name => if name ∈ s.tableNames then s.tableNames else s.tableNames ++ [name]
      | none => s.tableNames := by
  cases e with
  | table t => exact tableNames_add s t
  | index other i => exact tableNames_modify s other _ fun _ ht => ht

/-- No event gives a second table the name of a first one. -/
theorem nodup_tableNames_afterEvent {s : Schema} (h : s.tableNames.Nodup) (e : SchemaEvent) :
    (s.afterEvent e).tableNames.Nodup := by
  rw [tableNames_afterEvent]
  split
  · next name _ =>
    by_cases hName : name ∈ s.tableNames
    · rwa [if_pos hName]
    · rw [if_neg hName]
      exact List.Nodup.append h (List.nodup_singleton name) (by simpa using hName)
  · exact h

/-! ## A run of events -/

@[simp] theorem afterEvents_nil (s : Schema) : s.afterEvents [] = s := rfl

@[simp] theorem afterEvents_cons (s : Schema) (e : SchemaEvent) (es : List SchemaEvent) :
    s.afterEvents (e :: es) = (s.afterEvent e).afterEvents es := rfl

theorem afterEvents_append (s : Schema) (es fs : List SchemaEvent) :
    s.afterEvents (es ++ fs) = (s.afterEvents es).afterEvents fs := List.foldl_append ..

theorem nodup_tableNames_afterEvents {s : Schema} (h : s.tableNames.Nodup) (es : List SchemaEvent) :
    (s.afterEvents es).tableNames.Nodup := by
  induction es generalizing s with
  | nil => exact h
  | cons e es ih => exact ih (nodup_tableNames_afterEvent h e)

/-- Text by text or event by event, the schema is the same. -/
theorem foldl_afterText (s : Schema) (texts : List (List Char)) :
    texts.foldl afterText s = s.afterEvents (texts.flatMap SchemaEvent.ofText) := by
  induction texts generalizing s with
  | nil => rfl
  | cons t ts ih =>
    rw [List.foldl_cons, ih, afterText_eq_afterEvents, List.flatMap_cons, afterEvents_append]

/-- The tables of a run stand in the order in which their names first came up. -/
theorem tableNames_afterEvents_empty (events : List SchemaEvent) :
    (empty.afterEvents events).tableNames = (createdNames events).eraseDups := by
  induction events using List.reverseRecOn with
  | nil => rfl
  | append_singleton es e ih =>
    rw [afterEvents_append, afterEvents_cons, afterEvents_nil, tableNames_afterEvent, ih]
    cases e with
    | table t => rw [createdNames_append]; exact (eraseDups_concat _ _).symm
    | index other i => simp [created?]

/-- As long as the table of a name is not created again, it collects the indexes that are put on it. -/
theorem table?_afterEvents_of_not_created (s : Schema) (es : List SchemaEvent) {name : String}
    (h : name ∉ createdNames es) :
    (s.afterEvents es).table? name =
      (s.table? name).map fun t => { t with indexes := t.indexes ++ indexesOn name es } := by
  induction es generalizing s with
  | nil => simp
  | cons e es ih =>
    have he : e.created? ≠ some name := by
      rintro he
      exact h (List.mem_filterMap.2 ⟨e, List.mem_cons_self, he⟩)
    have hes : name ∉ createdNames es := by
      intro hm
      obtain ⟨f, hf, hfn⟩ := List.mem_filterMap.1 hm
      exact h (List.mem_filterMap.2 ⟨f, List.mem_cons_of_mem e hf, hfn⟩)
    rw [afterEvents_cons, ih _ hes, table?_afterEvent_of_not_created s e he, Option.map_map]
    cases hi : e.indexOn? name <;> simp [Function.comp_def, indexesOn, hi]

/-- The last definition of a name is the one that is found, with the indexes put on it since. -/
theorem table?_afterEvents_last (s : Schema) (before after : List SchemaEvent) (t : Table)
    (h : t.name ∉ createdNames after) :
    (s.afterEvents (before ++ .table t :: after)).table? t.name =
      some { t with indexes := t.indexes ++ indexesOn t.name after } := by
  rw [afterEvents_append, afterEvents_cons, table?_afterEvents_of_not_created _ _ h, afterEvent,
    table?_add_self, Option.map_some]

end Schema

end SqlSurvey
