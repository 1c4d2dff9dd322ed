import SqlSurvey.Literal.Fragment
import SqlSurvey.Proofs.Pattern.Parts
import SqlSurvey.Proofs.Schema.Events

/-!
# Recovered schemas are well formed

What holds of every table that is read from a text and of every schema on the way through any texts and
sources: names are there and distinct, a primary key is never null and is among the keys of its table, and the
relationships are the foreign keys one by one. Each item of a body keeps it, and so does each event.
-/

namespace SqlSurvey

/-! ## Well-formed keys, tables and schemas -/

/-- A foreign key that names its column and what it refers to. -/
structure ForeignKey.Named (k : ForeignKey) : Prop where
  column : k.column ≠ ""
  referencesTable : k.referencesTable ≠ ""
  referencesColumn : k.referencesColumn ≠ ""

/-- A column with a name, which is not null if it is a primary key. -/
structure Column.WellFormed (c : Column) : Prop where
  name : c.name ≠ ""
  notNull : c.isPrimaryKey = true → c.nullable = false

/-- A table whose columns and keys are well formed and whose inline primary keys are among its keys, in order. -/
structure Table.WellFormed (t : Table) : Prop where
  columns : ∀ c ∈ t.columns, c.WellFormed
  inlineKeys : ((t.columns.filter Column.isPrimaryKey).map Column.name).Sublist t.primaryKey
  primaryKey : ∀ name ∈ t.primaryKey, name ≠ ""
  foreignKeys : ∀ k ∈ t.foreignKeys, k.Named

/-- A relationship that stands for a foreign key of a table. -/
structure Relationship.StandsFor (r : Relationship) (t : Table) (k : ForeignKey) : Prop where
  fromTable : r.fromTable = t.name
  fromColumn : r.fromColumn = k.column
  toTable : r.toTable = k.referencesTable
  toColumn : r.toColumn = k.referencesColumn
  onDelete : r.onDelete = k.onDelete
  onUpdate : r.onUpdate = k.onUpdate

namespace Schema

/-- The foreign keys of a schema with their tables, in table order and then in key order. -/
def keysByTable (s : Schema) : List (Table × ForeignKey) :=
  s.tables.flatMap fun t => t.foreignKeys.map fun k => (t, k)

/-- A schema of well-formed tables with distinct names, each found under its own, in which the relationships stand
for the foreign keys one by one and start from its tables. -/
structure WellFormed (s : Schema) : Prop where
  distinct : s.tableNames.Nodup
  stored : ∀ t ∈ s.tables, s.table? t.name = some t
  tables : ∀ t ∈ s.tables, t.WellFormed
  relationships : List.Forall₂ (fun e r => Relationship.StandsFor r e.1 e.2) s.keysByTable s.relationships
  fromTables : ∀ r ∈ s.relationships, s.hasTable r.fromTable = true

theorem forall₂_relationships (s : Schema) :
    List.Forall₂ (fun e r => Relationship.StandsFor r e.1 e.2) s.keysByTable s.relationships := by
  have hEq : s.relationships = s.keysByTable.map fun e => e.2.relationship e.1.name := by
    rw [relationships, keysByTable, List.map_flatMap]
    simp only [List.map_map, Function.comp_def]
  rw [hEq, List.forall₂_map_right_iff, List.forall₂_same]
  exact fun e _ => ⟨rfl, rfl, rfl, rfl, rfl, rfl⟩

theorem hasTable_fromTable {s : Schema} {r : Relationship} (hr : r ∈ s.relationships) :
    s.hasTable r.fromTable = true := by
  obtain ⟨t, ht, hr⟩ := List.mem_flatMap.1 hr
  obtain ⟨k, -, rfl⟩ := List.mem_map.1 hr
  rw [hasTable_iff]
  exact List.mem_map_of_mem ht

/-- Distinct names and well-formed tables are all that it takes. -/
theorem WellFormed.of_distinct {s : Schema} (hDistinct : s.tableNames.Nodup)
    (hTables : ∀ t ∈ s.tables, t.WellFormed) : s.WellFormed where
  distinct := hDistinct
  stored _ ht := table?_of_mem hDistinct ht
  tables := hTables
  relationships := s.forall₂_relationships
  fromTables _ hr := hasTable_fromTable hr

end Schema

/-! ## What is read is well formed -/

namespace Ddl

open Pattern

theorem ofList_ne_empty {s : List Char} (h : s ≠ []) : String.ofList s ≠ "" := by
  intro hEmpty
  exact h (by simpa using congrArg String.toList hEmpty)

theorem ne_nil_of_mem_nameList {s t : List Char} (h : t ∈ nameList s) : t ≠ [] := by
  simpa using (List.mem_filter.1 h).2

/-- The columns that are declared are well formed: no constraint takes the name away, and a primary key is not
null whatever else is said of it. -/
theorem readColumn?_wellFormed {item : List Char} {c : Column} (h : readColumn? item = some c) :
    c.WellFormed := by
  rw [readColumn?_eq] at h
  obtain ⟨k, hFind, rfl⟩ := Option.map_eq_some_iff.1 h
  refine ⟨ofList_ne_empty (groupText_ne_nil (by decide) hFind), fun hKey => ?_⟩
  have hKey : primaryKeyPhrase.occursIn k.rest = true := hKey
  simp [columnOf, hKey]

theorem readInlineReference?_named {column : String} {item : List Char} {k : ForeignKey} (hColumn : column ≠ "")
    (h : readInlineReference? column item = some k) : k.Named := by
  obtain ⟨m, hFind, rfl⟩ := Option.map_eq_some_iff.1 h
  exact ⟨hColumn, ofList_ne_empty (groupText_ne_nil (by decide) hFind),
    ofList_ne_empty (groupText_ne_nil (by decide) hFind)⟩

theorem readForeignKeys_named {item : List Char} {k : ForeignKey} (h : k ∈ readForeignKeys item) : k.Named := by
  unfold readForeignKeys at h
  split at h
  · exact absurd h List.not_mem_nil
  · next m hFind =>
    -- a key pairs a name of the one list with a name of the other
    rw [← List.map_uncurry_zip_eq_zipWith] at h
    obtain ⟨pair, hPair, rfl⟩ := List.mem_map.1 h
    obtain ⟨hColumn, hReferenced⟩ := List.of_mem_zip hPair
    exact ⟨ofList_ne_empty (ne_nil_of_mem_nameList hColumn),
      ofList_ne_empty (groupText_ne_nil (by decide) hFind),
      ofList_ne_empty (ne_nil_of_mem_nameList hReferenced)⟩

theorem ne_empty_of_mem_readPrimaryKey {item : List Char} {name : String} (h : name ∈ readPrimaryKey item) :
    name ≠ "" := by
  unfold readPrimaryKey at h
  split at h
  · exact absurd h List.not_mem_nil
  · obtain ⟨t, ht, rfl⟩ := List.mem_map.1 h
    exact ofList_ne_empty (ne_nil_of_mem_nameList ht)

end Ddl

namespace Table

variable {t : Table}

theorem wellFormed_named (name : String) : (named name).WellFormed :=
  ⟨by simp [named], by simp [named], by simp [named], by simp [named]⟩

/-! ### What an item adds -/

theorem WellFormed.addForeignKeys (h : t.WellFormed) {keys : List ForeignKey} (hKeys : ∀ k ∈ keys, k.Named) :
    WellFormed { t with foreignKeys := t.foreignKeys ++ keys } where
  columns := h.columns
  inlineKeys := h.inlineKeys
  primaryKey := h.primaryKey
  foreignKeys := List.forall_mem_append.2 ⟨h.foreignKeys, hKeys⟩

theorem WellFormed.addPrimaryKey (h : t.WellFormed) {names : List String} (hNames : ∀ name ∈ names, name ≠ "") :
    WellFormed { t with primaryKey := t.primaryKey ++ names } where
  columns := h.columns
  inlineKeys := h.inlineKeys.trans (List.sublist_append_left _ _)
  primaryKey := List.forall_mem_append.2 ⟨h.primaryKey, hNames⟩
  foreignKeys := h.foreignKeys

/-- A column brings its name into the keys if it is a primary key, and otherwise it is none of the inline keys. -/
theorem WellFormed.addColumn (h : t.WellFormed) {c : Column} (hColumn : c.WellFormed) :
    (t.addColumn c).WellFormed where
  columns := List.forall_mem_append.2 ⟨h.columns, by simpa using hColumn⟩
  inlineKeys := by
    unfold Table.addColumn
    rw [List.filter_append, List.map_append]
    by_cases hKey : c.isPrimaryKey = true <;> simpa [hKey] using h.inlineKeys
  primaryKey := by
    unfold Table.addColumn
    by_cases hKey : c.isPrimaryKey = true
    · simpa [hKey, or_imp, forall_and, hColumn.name] using h.primaryKey
    · simpa [hKey] using h.primaryKey
  foreignKeys := h.foreignKeys

theorem WellFormed.addIndex (h : t.WellFormed) (i : Index) : (t.addIndex i).WellFormed :=
  ⟨h.columns, h.inlineKeys, h.primaryKey, h.foreignKeys⟩

theorem WellFormed.addItem (h : t.WellFormed) (item : List Char) : (Ddl.addItem t item).WellFormed := by
  unfold Ddl.addItem
  split
  · exact h.addForeignKeys fun k hk => Ddl.readForeignKeys_named hk
  split
  · exact h.addPrimaryKey fun name hName => Ddl.ne_empty_of_mem_readPrimaryKey hName
  split
  · exact h
  split
  · exact h
  · next column hColumn =>
    have hColumn := Ddl.readColumn?_wellFormed hColumn
    refine (h.addForeignKeys fun k hk => ?_).addColumn hColumn
    exact Ddl.readInlineReference?_named hColumn.name (Option.mem_toList.1 hk)

theorem WellFormed.foldl_addItem (h : t.WellFormed) (items : List (List Char)) :
    (items.foldl Ddl.addItem t).WellFormed := by
  induction items generalizing t with
  | nil => exact h
  | cons item items ih => exact ih (h.addItem item)

end Table

theorem Ddl.readTable?_wellFormed {sql : List Char} {t : Table} (h : readTable? sql = some t) : t.WellFormed := by
  simp only [readTable?, Option.bind_eq_bind, Option.bind_eq_some_iff, Option.pure_def, Option.some.injEq] at h
  obtain ⟨hit, -, body, -, rfl⟩ := h
  exact (Table.wellFormed_named _).foldl_addItem _

/-! ## Every schema on the way -/

namespace SchemaEvent

/-- An event that creates no ill-formed table. -/
def WellFormed : SchemaEvent → Prop
  | table t => t.WellFormed
  | index _ _ => True

theorem wellFormed_of_mem_ofText {sql : List Char} {e : SchemaEvent} (h : e ∈ ofText sql) : e.WellFormed := by
  cases e with
  | index name i => trivial
  | table t =>
    obtain ⟨statement, -, hTable⟩ := exists_readTable?_of_mem_ofText h
    exact Ddl.readTable?_wellFormed hTable

end SchemaEvent

namespace Schema

variable {s : Schema}

theorem wellFormed_empty : empty.WellFormed := .of_distinct List.nodup_nil fun _ ht => absurd ht List.not_mem_nil

theorem mem_tables_modify {name : String} {f : Table → Table} {u : Table} (h : u ∈ (s.modify name f).tables) :
    ∃ t ∈ s.tables, u = f t ∨ u = t := by
  obtain ⟨t, ht, rfl⟩ := List.mem_map.1 h
  refine ⟨t, ht, ?_⟩
  by_cases hName : (t.name == name) = true
  · exact .inl (if_pos hName)
  · exact .inr (if_neg hName)

theorem mem_tables_add {t u : Table} (h : u ∈ (s.add t).tables) : u = t ∨ u ∈ s.tables := by
  unfold add at h
  split at h
  · obtain ⟨v, hv, rfl | rfl⟩ := mem_tables_modify h
    · exact .inl rfl
    · exact .inr hv
  · rcases List.mem_append.1 h with h | h
    · exact .inr h
    · exact .inl (List.mem_singleton.1 h)

/-- After an event there are the old tables, one of them with one more index, or the table created and the rest. -/
theorem WellFormed.afterEvent (h : s.WellFormed) {e : SchemaEvent} (he : e.WellFormed) :
    (s.afterEvent e).WellFormed := by
  apply WellFormed.of_distinct (nodup_tableNames_afterEvent h.distinct e)
  intro u hu
  cases e with
  | table t =>
    rcases mem_tables_add hu with rfl | hu
    · exact he
    · exact h.tables u hu
  | index name i =>
    obtain ⟨t, ht, rfl | rfl⟩ := mem_tables_modify hu
    · exact (h.tables t ht).addIndex i
    · exact h.tables u ht

/-- What is handed over to be taken in: the text of one fragment, or a whole source. -/
inductive Input where
  | text (sql : List Char)
  | source (src : List Char)

/-- The texts that are taken in, one after the other. -/
def Input.texts : Input → List (List Char)
  | .text sql => [sql]
  | .source src => (Fragment.allIn src).map Fragment.text

/-- The schema after something has been taken in. -/
def afterInput (s : Schema) : Input → Schema
  | .text sql => s.afterText sql
  | .source src => s.afterSource src

/-- The events of all that is handed over. -/
def eventsOf (inputs : List Input) : List SchemaEvent := (inputs.flatMap Input.texts).flatMap SchemaEvent.ofText

/-- Every schema on the way, from the empty one on, event by event. -/
def onTheWay (inputs : List Input) : List Schema := (eventsOf inputs).scanl afterEvent empty

theorem afterInput_eq_foldl (s : Schema) (i : Input) : s.afterInput i = i.texts.foldl afterText s := by
  cases i with
  | text sql => rfl
  | source src => exact List.foldl_map.symm

theorem foldl_afterInput (s : Schema) (inputs : List Input) :
    inputs.foldl afterInput s = s.afterEvents (eventsOf inputs) := by
  rw [eventsOf, ← foldl_afterText, List.foldl_flatMap]
  congr 1
  funext s i
  exact s.afterInput_eq_foldl i

theorem eventsOf_mono {done inputs : List Input} (h : done <+: inputs) : eventsOf done <+: eventsOf inputs := by
  obtain ⟨rest, rfl⟩ := h
  simp only [eventsOf, List.flatMap_append, List.prefix_append]

theorem wellFormed_of_mem_eventsOf {inputs : List Input} {e : SchemaEvent} (h : e ∈ eventsOf inputs) :
    e.WellFormed := by
  obtain ⟨sql, -, he⟩ := List.mem_flatMap.1 h
  exact SchemaEvent.wellFormed_of_mem_ofText he

/-- Well-formed events lead through well-formed schemas only. -/
theorem WellFormed.of_mem_scanl (h : s.WellFormed) {es : List SchemaEvent} (hEvents : ∀ e ∈ es, e.WellFormed)
    {r : Schema} (hr : r ∈ es.scanl Schema.afterEvent s) : r.WellFormed := by
  induction es generalizing s with
  | nil =>
    obtain rfl : r = s := by simpa using hr
    exact h
  | cons e es ih =>
    rw [List.scanl_cons] at hr
    rcases List.mem_cons.1 hr with rfl | hr
    · exact h
    · refine ih (h.afterEvent (hEvents e List.mem_cons_self)) (fun f hf => ?_) hr
      exact hEvents f (List.mem_cons_of_mem e hf)

/-- A run passes through what its beginnings lead to. -/
theorem afterEvents_mem_scanl (s : Schema) {before events : List SchemaEvent} (h : before <+: events) :
    s.afterEvents before ∈ events.scanl afterEvent s := by
  induction before generalizing s events with
  | nil => cases events <;> simp [afterEvents]
  | cons e before ih =>
    obtain ⟨after, rfl⟩ := h
    rw [List.cons_append, List.scanl_cons]
    exact List.mem_cons_of_mem s (ih (s.afterEvent e) (List.prefix_append before after))

/-- Whatever is handed over, in any order, every schema on the way is well formed; and the schema after each of the
inputs is one of these. -/
theorem wellFormed_onTheWay (inputs : List Input) :
    (∀ s ∈ onTheWay inputs, s.WellFormed) ∧
      ∀ done, done <+: inputs → done.foldl afterInput empty ∈ onTheWay inputs := by
  refine ⟨fun s hs => ?_, fun done hDone => ?_⟩
  · exact wellFormed_empty.of_mem_scanl (fun e he => wellFormed_of_mem_eventsOf he) hs
  · rw [foldl_afterInput]
    exact afterEvents_mem_scanl empty (eventsOf_mono hDone)

/-- A text with a key that is said to be null and a body that is not closed, and then a source with a reference. -/
theorem wellFormed_onTheWay_posts :
    ∃ s ∈ onTheWay
        [.text "CREATE TABLE users (id INT PRIMARY KEY NULL, , PRIMARY KEY (id, , b)); CREATE TABLE x (".toList,
          .source "db.exec('create table posts (author references users(id))')".toList],
      s.tableNames = ["users", "posts"] ∧ s.relationships = [⟨"posts", "author", "users", "id", none, none⟩] ∧
        s.WellFormed := by
  have hMem := (wellFormed_onTheWay
    [.text "CREATE TABLE users (id INT PRIMARY KEY NULL, , PRIMARY KEY (id, , b)); CREATE TABLE x (".toList,
      .source "db.exec('create table posts (author references users(id))')".toList]).2 _ (List.prefix_refl _)
  exact ⟨_, hMem, by decide +kernel, by decide +kernel, (wellFormed_onTheWay _).1 _ hMem⟩

end Schema

end SqlSurvey
