import SqlSurvey.Proofs.Schema.Shapes
import SqlSurvey.Proofs.Ddl.Layout
import SqlSurvey.Proofs.Ddl.Default
import SqlSurvey.Proofs.Sql.Layout

/-!
# Schemas and the layout of the text

From a text without quotes and comments and from the collapsed text the same schema is recovered, but for
defaults that are empty: where three blanks or more stand between DEFAULT and something that begins as a
constraint does, one of them is taken for the default, and in the collapsed text it is not. The relation
between the two schemas goes through item by item, statement by statement.
-/

namespace SqlSurvey

open Pattern

/-! ## Columns -/

/-- A column and what is read in its place from the squeezed text. -/
structure Column.SqueezesTo (c d : Column) : Prop where
  same : d = { c with defaultValue := d.defaultValue }
  /-- The default is squeezed, unless it is empty. -/
  default : d.defaultValue = c.defaultValue.map Text.squeezed ∨ c.defaultValue = some ""
  /-- No default that is read from a squeezed text is blank. -/
  written : ∀ text ∈ d.defaultValue, Text.collapsed text ≠ ""

namespace Ddl

variable {s : List Char}

theorem keepsSolid_columnHead (n : Nat) : columnHead.KeepsSolid n :=
  ⟨⟨⟨trivial, keepsSolid_name n 1⟩, trivial⟩, trivial, fun _ _ hc => Text.isWordChar_of_isBlank hc⟩

/-- The name of a column is one word. -/
theorem squeezed_name_of_readColumn? {c : Column} (h : readColumn? s = some c) :
    Text.squeezed c.name = c.name := by
  rw [readColumn?_eq] at h
  obtain ⟨k, hFind, rfl⟩ := Option.map_eq_some_iff.1 h
  rw [columnOf, Text.squeezed_ofList,
    Text.squeeze_of_forall (isBlank_groupText (keepsSolid_columnHead 1) hFind)]

/-- A default is trimmed. -/
theorem trim_of_defaultIn {text : List Char} (h : defaultIn s = some text) : Text.trim text = text := by
  obtain ⟨k, -, rfl⟩ := Option.map_eq_some_iff.1 h
  exact Text.trim_eq_self (fun _ => Text.isBlank_head_trim) Text.isBlank_getLast_trim

theorem columnOf_squeezesTo {h : Hit} (hName : ∀ c ∈ h.groupText 1, Text.isBlank c = false)
    (hType : ∀ c ∈ h.groupText 2, Text.isBlank c = false) : (columnOf h).SqueezesTo (columnOf h.squeeze) where
  same := by
    have hPrimary := stable_primaryKeyPhrase.occursIn_squeeze refuses_primaryKeyPhrase h.rest
    have hNotNull := stable_notNullPhrase.occursIn_squeeze refuses_notNullPhrase h.rest
    have hAuto := stable_autoIncrementPhrase.occursIn_squeeze refuses_autoIncrementPhrase h.rest
    simp only [columnOf, Hit.groupText_squeeze, Hit.squeeze_rest, Text.squeeze_of_forall hName,
      Text.squeeze_of_forall hType, hPrimary, hNotNull, hAuto]
  default := by
    rcases defaultIn_squeeze h.rest with hSame | hEmpty
    · left
      rw [columnOf, columnOf, Hit.squeeze_rest, hSame, Option.map_map, Option.map_map]
      exact congrArg (fun f => (defaultIn h.rest).map f) (funext fun t => (Text.squeezed_ofList t).symm)
    · right
      rw [columnOf, hEmpty]
      rfl
  written text hText := by
    obtain ⟨t, ht, rfl⟩ := Option.map_eq_some_iff.1 hText
    have hNonempty : t ≠ [] := fun hNil => defaultIn_squeeze_ne_nil h.rest (hNil ▸ ht)
    intro hCollapsed
    have hCollapse : Text.collapse t = [] := by
      have := congrArg String.toList hCollapsed
      rwa [Text.collapsed, String.toList_ofList, String.toList_ofList] at this
    rw [Text.collapse_eq, trim_of_defaultIn ht, Text.squeeze_eq_nil_iff] at hCollapse
    exact hNonempty hCollapse

theorem readColumn?_squeeze (s : List Char) :
    Option.Rel Column.SqueezesTo (readColumn? s) (readColumn? (Text.squeeze s)) := by
  rw [readColumn?_eq, readColumn?_eq, Text.trim_squeeze,
    stable_columnHead.find_squeeze_of_anchored anchored_columnHead]
  cases hFind : columnHead.find (Text.trim s) with
  | none => exact .none
  | some h =>
    have hWord := fun n => isBlank_groupText (keepsSolid_columnHead n) hFind
    exact .some (columnOf_squeezesTo (hWord 1) (hWord 2))

end Ddl

/-! ## Tables -/

/-- A table and what is read in its place from the squeezed text. -/
structure Table.SqueezesTo (t u : Table) : Prop where
  name : u.name = t.name
  columns : List.Forall₂ Column.SqueezesTo t.columns u.columns
  primaryKey : u.primaryKey = t.primaryKey.map Text.squeezed
  foreignKeys : u.foreignKeys = t.foreignKeys.map ForeignKey.squeezed
  indexes : u.indexes = t.indexes.map Index.squeezed

variable {t u : Table} {c d : Column}

theorem Table.squeezesTo_named (name : String) : (named name).SqueezesTo (named name) :=
  ⟨rfl, .nil, rfl, rfl, rfl⟩

theorem Table.SqueezesTo.addColumn (h : t.SqueezesTo u) (hColumn : c.SqueezesTo d)
    (hName : Text.squeezed c.name = c.name) : (t.addColumn c).SqueezesTo (u.addColumn d) where
  name := h.name
  columns := List.rel_append h.columns (.cons hColumn .nil)
  primaryKey := by
    have hSame : d.name = c.name := by rw [hColumn.same]
    have hKey : d.isPrimaryKey = c.isPrimaryKey := by rw [hColumn.same]
    rw [Table.addColumn, Table.addColumn]
    simp only [hSame, hKey, h.primaryKey]
    by_cases hPrimary : c.isPrimaryKey = true <;> simp [hPrimary, hName]
  foreignKeys := h.foreignKeys
  indexes := h.indexes

theorem Table.SqueezesTo.addForeignKeys (h : t.SqueezesTo u) (keys : List ForeignKey) :
    Table.SqueezesTo { t with foreignKeys := t.foreignKeys ++ keys }
      { u with foreignKeys := u.foreignKeys ++ keys.map ForeignKey.squeezed } :=
  ⟨h.name, h.columns, h.primaryKey, by rw [h.foreignKeys, List.map_append], h.indexes⟩

namespace Ddl

theorem addItem_squeeze (h : t.SqueezesTo u) (item : List Char) :
    (addItem t item).SqueezesTo (addItem u (Text.squeeze item)) := by
  have hForeign := stable_foreignKeyItem.occursIn_squeeze_of_anchored (anchored_atStart.append _) item
  have hPrimary := stable_primaryKeyItem.occursIn_squeeze_of_anchored (anchored_atStart.append _) item
  have hConstraint := stable_constraintItem.occursIn_squeeze_of_anchored anchored_constraintItem item
  unfold addItem
  rw [hForeign, hPrimary, hConstraint]
  by_cases hf : foreignKeyItem.occursIn item = true
  · rw [if_pos hf, if_pos hf, readForeignKeys_squeeze]
    exact h.addForeignKeys _
  rw [if_neg hf, if_neg hf]
  by_cases hp : primaryKeyItem.occursIn item = true
  · rw [if_pos hp, if_pos hp, readPrimaryKey_squeeze]
    exact ⟨h.name, h.columns, by rw [h.primaryKey, List.map_append], h.foreignKeys, h.indexes⟩
  rw [if_neg hp, if_neg hp]
  by_cases hc : constraintItem.occursIn item = true
  · rw [if_pos hc, if_pos hc]
    exact h
  rw [if_neg hc, if_neg hc]
  have hColumn := readColumn?_squeeze item
  have hName := fun c => squeezed_name_of_readColumn? (s := item) (c := c)
  generalize readColumn? item = read at hColumn hName
  generalize readColumn? (Text.squeeze item) = other at hColumn
  cases hColumn with
  | none => exact h
  | @some column other hColumn =>
    have hName := hName column rfl
    have hSame : other.name = column.name := by rw [hColumn.same]
    have hKeys : (readInlineReference? column.name (Text.squeeze item)).toList =
        (readInlineReference? column.name item).toList.map ForeignKey.squeezed := by
      rw [readInlineReference?_squeeze hName]
      cases readInlineReference? column.name item <;> rfl
    simp only [hSame, hKeys]
    exact (h.addForeignKeys _).addColumn hColumn hName

theorem foldl_addItem_squeeze (h : t.SqueezesTo u) (its : List (List Char)) :
    (its.foldl addItem t).SqueezesTo ((its.map Text.squeeze).foldl addItem u) := by
  induction its generalizing t u with
  | nil => exact h
  | cons item its ih => exact ih (addItem_squeeze h item)

theorem rest_suffix_of_find {p : Pattern} {s : List Char} {h : Hit} (hFind : p.find s = some h) :
    h.rest <:+ s := by
  obtain ⟨a, b, rfl, hHit⟩ := exists_of_findFrom_eq_some hFind
  rw [← text_append_rest hHit]
  exact (List.suffix_append h.text h.rest).trans (List.suffix_append a _)

theorem readTable?_squeeze {s : List Char} (h : Sql.Unmarked s) :
    Option.Rel Table.SqueezesTo (readTable? s) (readTable? (Text.squeeze s)) := by
  have hTable : createTableHead.KeepsSolid 1 :=
    ⟨⟨⟨⟨⟨keepsSolid_phrase 1 _ _, trivial⟩, keepsSolid_ifNotExists 1⟩, keepsSolid_name 1 1⟩, keepsSolid_gap 1⟩,
      trivial⟩
  simp only [readTable?, Option.bind_eq_bind]
  rw [stable_createTableHead.find_squeeze refuses_createTableHead_blank]
  cases hFind : createTableHead.find s with
  | none => exact .none
  | some k =>
    have hRest : Sql.Unmarked k.rest := h.of_infix (rest_suffix_of_find hFind).isInfix
    have hName := Text.squeeze_of_forall (isBlank_groupText hTable hFind)
    simp only [Option.map_some, Option.bind_some, Hit.squeeze_rest, Hit.groupText_squeeze, hName,
      hRest.bodyAfterParen_squeeze]
    cases hBody : Sql.bodyAfterParen k.rest with
    | none => exact .none
    | some body =>
      simp only [Option.map_some, Option.bind_some, (hRest.of_bodyAfterParen hBody).items_squeeze]
      exact .some (foldl_addItem_squeeze (Table.squeezesTo_named _) _)

end Ddl

/-! ## Statements -/

/-- What a statement does and what the squeezed statement does. -/
inductive SchemaEvent.SqueezesTo : SchemaEvent → SchemaEvent → Prop
  | table {t u : Table} (h : t.SqueezesTo u) : SqueezesTo (.table t) (.table u)
  | index (name : String) (i : Index) : SqueezesTo (.index name i) (.index name i.squeezed)

theorem SchemaEvent.ofStatement_squeeze {sql : List Char} (h : Sql.Unmarked sql) :
    List.Forall₂ SqueezesTo (ofStatement sql) (ofStatement (Text.squeeze sql)) := by
  have hTables := Ddl.readTable?_squeeze h
  rw [ofStatement_eq, ofStatement_eq, Ddl.readIndex?_squeeze]
  generalize Ddl.readTable? sql = t at hTables
  generalize Ddl.readTable? (Text.squeeze sql) = u at hTables
  refine List.rel_append ?_ ?_
  · cases hTables with
    | none => exact .nil
    | some hTables => exact .cons (.table hTables) .nil
  · cases Ddl.readIndex? sql with
    | none => exact .nil
    | some p => exact .cons (.index p.1 p.2) .nil

/-! ## Schemas -/

namespace Schema

/-- A schema and what is recovered in its place from the squeezed text. -/
def SqueezesTo (s r : Schema) : Prop := List.Forall₂ Table.SqueezesTo s.tables r.tables

variable {s r : Schema}

theorem SqueezesTo.tableNames (h : s.SqueezesTo r) : r.tableNames = s.tableNames := by
  have hNames := List.rel_map (fun t u (htu : Table.SqueezesTo t u) => htu.name.symm) h
  exact (List.forall₂_eq_eq_eq ▸ hNames : s.tableNames = r.tableNames).symm

theorem SqueezesTo.hasTable (h : s.SqueezesTo r) (name : String) : r.hasTable name = s.hasTable name :=
  Bool.eq_iff_iff.2 (by rw [hasTable_iff, hasTable_iff, h.tableNames])

theorem SqueezesTo.modify (h : s.SqueezesTo r) (name : String) {f g : Table → Table}
    (hfg : ∀ t u, t.SqueezesTo u → (f t).SqueezesTo (g u)) : (s.modify name f).SqueezesTo (r.modify name g) := by
  refine List.rel_map (fun t u htu => ?_) h
  by_cases hName : t.name = name
  · simpa [hName, htu.name] using hfg t u htu
  · simpa [hName, htu.name] using htu

theorem SqueezesTo.add (h : s.SqueezesTo r) {t u : Table} (htu : t.SqueezesTo u) :
    (s.add t).SqueezesTo (r.add u) := by
  rw [Schema.add, Schema.add, htu.name, h.hasTable]
  by_cases hTable : s.hasTable t.name = true
  · rw [if_pos hTable, if_pos hTable]
    exact h.modify t.name fun _ _ _ => htu
  · rw [if_neg hTable, if_neg hTable]
    exact List.rel_append h (.cons htu .nil)

/-- One event keeps the two schemas related. -/
theorem SqueezesTo.afterEvent (h : s.SqueezesTo r) {e k : SchemaEvent} (hEvent : e.SqueezesTo k) :
    (s.afterEvent e).SqueezesTo (r.afterEvent k) := by
  cases hEvent with
  | table htu => exact h.add htu
  | index name i =>
    refine h.modify name fun t u htu => ⟨htu.name, htu.columns, htu.primaryKey, htu.foreignKeys, ?_⟩
    simp [Table.addIndex, htu.indexes]

theorem SqueezesTo.afterEvents (h : s.SqueezesTo r) {es ks : List SchemaEvent}
    (hEvents : List.Forall₂ SchemaEvent.SqueezesTo es ks) : (s.afterEvents es).SqueezesTo (r.afterEvents ks) := by
  induction hEvents generalizing s r with
  | nil => exact h
  | cons hEvent _ ih => exact ih (h.afterEvent hEvent)

/-- So does a text, collapsed for the one of them. -/
theorem SqueezesTo.afterText (h : s.SqueezesTo r) {f : List Char} (hf : Sql.Unmarked f) :
    (s.afterText f).SqueezesTo (r.afterText (Text.collapse f)) := by
  rw [Schema.afterText, Schema.afterText, hf.statements_collapse]
  have hEach : ∀ sql ∈ Sql.statements f, Sql.Unmarked sql := fun sql => hf.of_mem_statements
  generalize Sql.statements f = sqls at hEach
  induction sqls generalizing s r with
  | nil => exact h
  | cons sql sqls ih =>
    have hOne := h.afterEvents (SchemaEvent.ofStatement_squeeze (hEach sql List.mem_cons_self))
    exact ih hOne fun other hOther => hEach other (List.mem_cons_of_mem sql hOther)

end Schema

/-! ## Collapsed schemas -/

/-- A column with every text of it collapsed. -/
def Column.collapsed (c : Column) : Column :=
  { c with
    name := Text.collapsed c.name
    type := Text.collapsed c.type
    defaultValue := c.defaultValue.map Text.collapsed }

/-- A foreign key with every text of it collapsed. -/
def ForeignKey.collapsed (k : ForeignKey) : ForeignKey where
  column := Text.collapsed k.column
  referencesTable := Text.collapsed k.referencesTable
  referencesColumn := Text.collapsed k.referencesColumn
  onDelete := k.onDelete.map Text.collapsed
  onUpdate := k.onUpdate.map Text.collapsed

/-- An index with every text of it collapsed. -/
def Index.collapsed (i : Index) : Index :=
  { i with name := Text.collapsed i.name, columns := i.columns.map Text.collapsed }

/-- A table with every text of it collapsed. -/
def Table.collapsed (t : Table) : Table where
  name := Text.collapsed t.name
  columns := t.columns.map Column.collapsed
  primaryKey := t.primaryKey.map Text.collapsed
  foreignKeys := t.foreignKeys.map ForeignKey.collapsed
  indexes := t.indexes.map Index.collapsed

/-- A schema with every text of it collapsed. -/
def Schema.collapsed (s : Schema) : Schema := ⟨s.tables.map Table.collapsed⟩

theorem ForeignKey.collapsed_squeezed (k : ForeignKey) : k.squeezed.collapsed = k.collapsed := by
  simp only [squeezed, collapsed, Text.collapsed_squeezed]

theorem Index.collapsed_squeezed (i : Index) : i.squeezed.collapsed = i.collapsed := by
  simp [squeezed, collapsed, Text.collapsed_squeezed]

/-- Columns in each other's place are the same when they are collapsed, unless the default is empty. -/
theorem Column.SqueezesTo.collapsed_eq_iff (h : c.SqueezesTo d) :
    d.collapsed = c.collapsed ↔ c.defaultValue ≠ some "" := by
  refine ⟨fun hSame hEmpty => ?_, fun hDefault => ?_⟩
  · have hBlank : d.defaultValue.map Text.collapsed = some "" := by
      have hBoth := congrArg Column.defaultValue hSame
      rwa [Column.collapsed, Column.collapsed, hEmpty] at hBoth
    obtain ⟨text, hText, hCollapsed⟩ := Option.map_eq_some_iff.1 hBlank
    exact h.written text hText hCollapsed
  · have hBoth : d.defaultValue.map Text.collapsed = c.defaultValue.map Text.collapsed := by
      rw [h.default.resolve_right hDefault, Option.map_map]
      exact congrArg (fun f => c.defaultValue.map f) (funext Text.collapsed_squeezed)
    rw [Column.collapsed, hBoth, h.same]
    rfl

/-- Lists are the same under two functions when this holds of each two members in the same place. -/
theorem map_eq_map_iff_of_forall₂ {α β γ : Type} {R : α → β → Prop} {P : α → Prop} {f : α → γ} {g : β → γ}
    {xs : List α} {ys : List β} (h : List.Forall₂ R xs ys) (hR : ∀ x y, R x y → (g y = f x ↔ P x)) :
    ys.map g = xs.map f ↔ ∀ x ∈ xs, P x := by
  induction h with
  | nil => simp
  | cons hxy _ ih => rw [List.map_cons, List.map_cons, List.cons.injEq, hR _ _ hxy, ih, List.forall_mem_cons]

theorem Table.SqueezesTo.collapsed_eq_iff (h : t.SqueezesTo u) :
    u.collapsed = t.collapsed ↔ ∀ c ∈ t.columns, c.defaultValue ≠ some "" := by
  have hText : ∀ names : List String, (names.map Text.squeezed).map Text.collapsed = names.map Text.collapsed := by
    intro names
    rw [List.map_map]
    exact congrArg (fun f => names.map f) (funext Text.collapsed_squeezed)
  have hForeign : u.foreignKeys.map ForeignKey.collapsed = t.foreignKeys.map ForeignKey.collapsed := by
    rw [h.foreignKeys, List.map_map]
    exact congrArg (fun f => t.foreignKeys.map f) (funext ForeignKey.collapsed_squeezed)
  have hIndexes : u.indexes.map Index.collapsed = t.indexes.map Index.collapsed := by
    rw [h.indexes, List.map_map]
    exact congrArg (fun f => t.indexes.map f) (funext Index.collapsed_squeezed)
  rw [← map_eq_map_iff_of_forall₂ h.columns fun _ _ hcd => hcd.collapsed_eq_iff]
  simp [Table.collapsed, h.name, h.primaryKey, hText, hForeign, hIndexes]

theorem Schema.SqueezesTo.collapsed_eq_iff {s r : Schema} (h : s.SqueezesTo r) :
    r.collapsed = s.collapsed ↔ ∀ t ∈ s.tables, ∀ c ∈ t.columns, c.defaultValue ≠ some "" := by
  rw [← map_eq_map_iff_of_forall₂ h fun _ _ htu => htu.collapsed_eq_iff, Schema.collapsed, Schema.collapsed,
    Schema.mk.injEq]

namespace Schema

/-- The schema does not depend on the layout of a text without quotes and comments, unless a default is
empty. -/
theorem collapsed_afterText_collapse_iff (f : List Char) (h : Sql.Unmarked f) :
    (empty.afterText (Text.collapse f)).collapsed = (empty.afterText f).collapsed ↔
      ∀ t ∈ (empty.afterText f).tables, ∀ c ∈ t.columns, c.defaultValue ≠ some "" :=
  (SqueezesTo.afterText (s := empty) (r := empty) .nil h).collapsed_eq_iff

/-- Two statements over several lines, with blanks before and after a default. -/
theorem collapsed_afterText_collapse_lines :
    (empty.afterText (Text.collapse
      "CREATE TABLE t (\n\tage INT DEFAULT   0\n\tNOT  NULL\n);\nCREATE INDEX i\nON t (age)".toList)).collapsed =
    (empty.afterText
      "CREATE TABLE t (\n\tage INT DEFAULT   0\n\tNOT  NULL\n);\nCREATE INDEX i\nON t (age)".toList).collapsed :=
  (collapsed_afterText_collapse_iff _ (by decide +kernel)).2 (by decide +kernel)

/-- A default can get lost in the layout: of three blanks one is taken for the default when what follows begins as
UNIQUE does. -/
theorem collapsed_afterText_collapse_default :
    Sql.Unmarked "CREATE TABLE t (id INT DEFAULT   unique_rowid())".toList ∧
      (empty.afterText "CREATE TABLE t (id INT DEFAULT   unique_rowid())".toList).collapsed =
        ⟨[⟨"t", [⟨"id", "INT", true, false, false, some ""⟩], [], [], []⟩]⟩ ∧
      (empty.afterText (Text.collapse "CREATE TABLE t (id INT DEFAULT   unique_rowid())".toList)).collapsed =
        ⟨[⟨"t", [⟨"id", "INT", true, false, false, some "unique_rowid()"⟩], [], [], []⟩]⟩ := by
  decide +kernel

end Schema

end SqlSurvey
