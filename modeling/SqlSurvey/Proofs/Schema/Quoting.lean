import SqlSurvey.Proofs.Ddl.IndexText
import SqlSurvey.Proofs.Schema.Run

/-!
# Schemas whatever the quotes of names are

A script is statements for tables and for indexes, with semicolons between them. Without the quotes of its names it
leaves behind the same schema, but for the columns of indexes: these are kept as they are written, so the two schemas
are the same once the quotes are taken off there.
-/

namespace SqlSurvey

/-! ## Index columns without quotes -/

/-- The index with its columns without quotes. -/
def Index.unquoted (i : Index) : Index :=
  { i with columns := i.columns.map fun c => String.ofList (Ddl.nameList.stripQuotes c.toList) }

/-- The table with the columns of its indexes without quotes. -/
def Table.unquoted (t : Table) : Table := { t with indexes := t.indexes.map Index.unquoted }

/-- The schema with the columns of all indexes without quotes. -/
def Schema.unquoted (s : Schema) : Schema := ⟨s.tables.map Table.unquoted⟩

/-- The event with the columns of its index without quotes. -/
def SchemaEvent.unquoted : SchemaEvent → SchemaEvent
  | .table t => .table t.unquoted
  | .index name i => .index name i.unquoted

@[simp] theorem Table.name_unquoted (t : Table) : t.unquoted.name = t.name := rfl

theorem Table.unquoted_addIndex (t : Table) (i : Index) : (t.addIndex i).unquoted = t.unquoted.addIndex i.unquoted := by
  simp [unquoted, addIndex]

/-- Without indexes there is nothing to take off. -/
theorem Table.unquoted_of_indexes_eq_nil {t : Table} (h : t.indexes = []) : t.unquoted = t := by
  rw [unquoted, h, List.map_nil, ← h]

namespace Schema

theorem hasTable_unquoted (s : Schema) (name : String) : s.unquoted.hasTable name = s.hasTable name := by
  simp [hasTable, unquoted, Function.comp_def]

theorem unquoted_modify (s : Schema) (name : String) {f g : Table → Table} (h : ∀ t, (f t).unquoted = g t.unquoted) :
    (s.modify name f).unquoted = s.unquoted.modify name g := by
  simp only [unquoted, modify, List.map_map, Schema.mk.injEq]
  refine List.map_congr_left fun t _ => ?_
  by_cases hName : t.name = name <;> simp [hName, h]

/-- An event does the same to a schema whose index columns are without quotes. -/
theorem unquoted_afterEvent (s : Schema) (e : SchemaEvent) :
    (s.afterEvent e).unquoted = s.unquoted.afterEvent e.unquoted := by
  cases e with
  | table t =>
    show (s.add t).unquoted = s.unquoted.add t.unquoted
    rw [add, add, Table.name_unquoted, hasTable_unquoted]
    split
    · exact unquoted_modify s t.name fun _ => rfl
    · simp [unquoted]
  | index name i => exact unquoted_modify s name fun t => t.unquoted_addIndex i

/-- So does a run of events. -/
theorem unquoted_afterEvents (s : Schema) (es : List SchemaEvent) :
    (s.afterEvents es).unquoted = s.unquoted.afterEvents (es.map SchemaEvent.unquoted) := by
  induction es generalizing s with
  | nil => rfl
  | cons e es ih => rw [afterEvents_cons, ih, unquoted_afterEvent, List.map_cons, afterEvents_cons]

end Schema

namespace Ddl

open Pattern

/-! ## What statements create -/

theorem TableText.unquoted_created (c : TableText) : c.created.unquoted = c.created :=
  Table.unquoted_of_indexes_eq_nil (foldl_addItem_indexes _ _)

/-- The index that is created without the quotes. -/
theorem IndexText.created_bare (c : IndexText) : c.bare.created = c.created.unquoted := by
  have hStrip : ∀ n ∈ c.columns, String.ofList n.bare.toWrittenName.text =
      String.ofList (nameList.stripQuotes (String.ofList n.toWrittenName.text).toList) := by
    intro n _
    rw [String.toList_ofList, n.toWrittenName.stripQuotes_text]
    simp [ListedName.bare, WrittenName.bare, WrittenName.text, Quoting.opening, Quoting.closing]
  have hColumns := List.map_congr_left hStrip
  simpa [created, bare, Index.unquoted, ListedName.bareAll, Function.comp_def] using hColumns

/-! ## Scripts -/

/-- A statement for a table or for an index. -/
inductive StatementText where
  | table (c : TableText)
  | index (c : IndexText)

namespace StatementText

/-- The same statement without quotes. -/
def bare : StatementText → StatementText
  | table c => table c.bare
  | index c => index c.bare

/-- The text of a statement. -/
def text : StatementText → List Char
  | table c => c.text
  | index c => c.text

/-- What a statement does. -/
def event : StatementText → SchemaEvent
  | table c => .table c.created
  | index c => .index (String.ofList c.table.name) c.created

/-- Whether no column of an index is in quotes. -/
def hasBareColumns : StatementText → Prop
  | table _ => True
  | index c => ∀ n ∈ c.columns, n.quoting = .bare

instance (c : StatementText) : Decidable c.hasBareColumns :=
  match c with
  | table _ => inferInstanceAs (Decidable True)
  | index c => inferInstanceAs (Decidable (∀ n ∈ c.columns, n.quoting = .bare))

variable (c : StatementText)

theorem isInner : Sql.IsInner c.text := by
  cases c with
  | table c => exact c.isInner
  | index c => exact c.isInner

theorem text_ne_nil : c.text ≠ [] := by
  cases c with
  | table c => exact c.text_ne_nil
  | index c => exact c.text_ne_nil

theorem trim_text : Text.trim c.text = c.text := by
  cases c with
  | table c => exact c.trim_text
  | index c => exact c.trim_text

theorem ofStatement_text : SchemaEvent.ofStatement c.text = [c.event] := by
  cases c with
  | table c => exact c.ofStatement_text
  | index c => exact c.ofStatement_text

/-- Without the quotes, a statement does the same but for the quotes of index columns. -/
theorem event_bare : c.bare.event = c.event.unquoted := by
  cases c with
  | table c =>
    show SchemaEvent.table c.bare.created = .table c.created.unquoted
    rw [c.created_bare, c.unquoted_created]
  | index c =>
    show SchemaEvent.index _ c.bare.created = .index _ c.created.unquoted
    rw [c.created_bare]
    rfl

theorem event_bare_of_hasBareColumns (h : c.hasBareColumns) : c.bare.event = c.event := by
  cases c with
  | table c => exact congrArg SchemaEvent.table c.created_bare
  | index c =>
    have hColumns : ∀ n ∈ c.columns, String.ofList n.bare.toWrittenName.text = String.ofList n.toWrittenName.text := by
      intro n hn
      rw [ListedName.bare, WrittenName.bare, ← h n hn]
    have hCreated : c.bare.created = c.created := by
      have hAll := List.map_congr_left hColumns
      simpa [IndexText.created, IndexText.bare, ListedName.bareAll, Function.comp_def] using hAll
    show SchemaEvent.index _ c.bare.created = .index _ c.created
    rw [hCreated]
    rfl

end StatementText

/-- A statement of a script with the blanks around it, or blanks alone. -/
structure ScriptPart where
  before : Gap
  statement : Option StatementText
  after : Gap

namespace ScriptPart

/-- The same part without quotes. -/
def bare (p : ScriptPart) : ScriptPart := { p with statement := p.statement.map StatementText.bare }

/-- The text of a part. -/
def text (p : ScriptPart) : List Char := p.before.text ++ ((p.statement.map StatementText.text).getD [] ++ p.after.text)

/-- The text of parts with semicolons between. -/
def script (ps : List ScriptPart) : List Char := [';'].intercalate (ps.map text)

theorem isInner (p : ScriptPart) : Sql.IsInner p.text := by
  refine p.before.isPart.toIsInner.append (Sql.IsInner.append ?_ p.after.isPart.toIsInner)
  cases p.statement with
  | none => exact Sql.isInner_of_forall (by simp)
  | some c => exact c.isInner

/-- A part is its statement, if it has one. -/
theorem statements_text (p : ScriptPart) : Sql.statements p.text = (p.statement.map StatementText.text).toList := by
  rw [Sql.statements_of_not_mem p.isInner.semicolon, text, ← List.append_assoc,
    Text.trim_append_blanks p.before.blank p.after.blank]
  cases p.statement with
  | none => rfl
  | some c =>
    rw [Option.map_some, Option.getD_some, c.trim_text, List.filter_cons_of_pos (by simpa using c.text_ne_nil)]
    rfl

/-- A script falls into its statements. -/
theorem statements_script (ps : List ScriptPart) :
    Sql.statements (script ps) = ps.flatMap fun p => (p.statement.map StatementText.text).toList := by
  induction ps with
  | nil => exact Sql.statements_of_not_mem (Sql.isInner_of_forall (s := []) (by simp)).semicolon
  | cons p ps ih =>
    cases ps with
    | nil => simp [script, p.statements_text]
    | cons q qs =>
      have hScript : script (p :: q :: qs) = p.text ++ ';' :: script (q :: qs) := by
        simp [script, List.intercalate_cons_cons]
      rw [hScript, Sql.statements_append_semicolon p.isInner.statement, List.flatMap_cons, p.statements_text, ih]

/-- It does what they do, one after the other. -/
theorem ofText_script (ps : List ScriptPart) :
    SchemaEvent.ofText (script ps) = ps.flatMap fun p => (p.statement.map StatementText.event).toList := by
  rw [SchemaEvent.ofText, statements_script, List.flatMap_assoc]
  refine List.flatMap_congr fun p _ => ?_
  cases p.statement with
  | none => rfl
  | some c => simp [c.ofStatement_text]

/-- What a script without quotes does. -/
theorem ofText_script_bare (ps : List ScriptPart) :
    SchemaEvent.ofText (script (ps.map bare)) = (SchemaEvent.ofText (script ps)).map SchemaEvent.unquoted := by
  rw [ofText_script, ofText_script, List.flatMap_map, List.map_flatMap]
  refine List.flatMap_congr fun p _ => ?_
  rw [bare]
  cases p.statement with
  | none => rfl
  | some c => exact congrArg (fun e => [e]) c.event_bare

theorem ofText_script_bare_of_hasBareColumns {ps : List ScriptPart} (h : ∀ p ∈ ps, ∀ c ∈ p.statement, c.hasBareColumns) :
    SchemaEvent.ofText (script (ps.map bare)) = SchemaEvent.ofText (script ps) := by
  rw [ofText_script, ofText_script, List.flatMap_map]
  refine List.flatMap_congr fun p hp => ?_
  have hStatement := h p hp
  rw [bare]
  cases hc : p.statement with
  | none => rfl
  | some c => exact congrArg (fun e => [e]) (c.event_bare_of_hasBareColumns (hStatement c hc))

end ScriptPart

/-! ## A script with all kinds of names -/

/-- No blanks. -/
def noBlanks : Gap := ⟨[], by simp⟩

/-- A name in a list without blanks. -/
def listed (n : WrittenName) : ListedName := ⟨n, noBlanks, noBlanks⟩

section

variable (k : Quoting)

def nameA : WrittenName := ⟨k, ['a'], by decide, by decide⟩

def nameB : WrittenName := ⟨k, ['b'], by decide, by decide⟩

def nameT : WrittenName := ⟨k, ['t'], by decide, by decide⟩

def nameU : WrittenName := ⟨k, ['u'], by decide, by decide⟩

/-- A reference to `b` in `u`. -/
def keyedReference : ColumnReference where
  start := .one
  references := .plain "REFERENCES"
  referencesEnd := .one
  table := nameU k
  tableOrdinary := (by decide : ¬ Spells "DEFAULT".toList ['u'])
  tableEnd := noBlanks
  column := listed (nameB k)
  columnOrdinary := (by decide : ¬ Spells "DEFAULT".toList ['b'])
  clauses := []
  free := isFree_nil

/-- A default takes nothing of it, whatever the quotes are. -/
theorem taken_keyedReference : (keyedReference k).taken [] = none :=
  (keyedReference k).taken_eq_none (by simp) (by cases k <;> decide +kernel)

/-- A column `a` with a default and a reference. -/
def keyedColumn : ColumnText where
  name := nameA k
  ordinary := (by decide : ∀ word ∈ "REFERENCES" :: reservedNames, ¬ Spells word.toList ['a'])
  nameEnd := .one
  type := "INT".toList
  typeNonempty := by decide
  typeWord := by decide
  constraints := " DEFAULT 0 NOT NULL".toList
  constraintsHead := by decide
  free := by decide +kernel
  noIndex := by decide +kernel
  reference := some (keyedReference k)
  noReference := (by decide +kernel :
    inlineReference.occursIn ("INT".toList ++ (" DEFAULT 0 NOT NULL".toList ++ [' '])) = false)
  defaultSettled := fun r hr => by
    obtain rfl := Option.mem_some.1 hr
    exact .inr ((taken_keyedReference .bare).trans (taken_keyedReference k).symm)

/-- A primary key of `a`. -/
def keyedPrimaryKey : PrimaryKeyText where
  primary := .plain "PRIMARY"
  primaryEnd := .one
  key := .plain "KEY"
  keyEnd := Space.one.toGap
  columns := [listed (nameA k)]
  nonempty := by simp
  clauses := []
  free := isFree_nil

/-- A foreign key from `a` to `b` in `u`. -/
def keyedForeignKey : ForeignKeyText where
  foreign := .plain "FOREIGN"
  foreignEnd := .one
  key := .plain "KEY"
  keyEnd := Space.one.toGap
  columnsEnd := Space.one.toGap
  references := .plain "REFERENCES"
  referencesEnd := .one
  table := nameU k
  tableEnd := noBlanks
  columns := [listed (nameA k)]
  columnsNonempty := by simp
  referenced := [listed (nameB k)]
  referencedNonempty := by simp
  clauses := []
  free := isFree_nil

/-- A table `t` with these items. -/
def keyedTable : TableText where
  create := .plain "CREATE"
  createEnd := .one
  table := .plain "TABLE"
  tableEnd := .one
  condition := none
  name := nameT k
  nameEnd := Space.one.toGap
  items := [⟨noBlanks, .column (keyedColumn k), noBlanks⟩, ⟨noBlanks, .primaryKey none (keyedPrimaryKey k), noBlanks⟩,
    ⟨noBlanks, .foreignKey none (keyedForeignKey k), noBlanks⟩]
  options := []
  free := isFree_nil

/-- An index `i` on the table, with the column `a` quoted in a way of its own. -/
def keyedIndex (column : Quoting) : IndexText where
  create := .plain "CREATE"
  createEnd := .one
  unique := none
  index := .plain "INDEX"
  indexEnd := .one
  condition := none
  name := ⟨k, ['i'], by decide, by decide⟩
  nameEnd := .one
  on := .plain "ON"
  onEnd := .one
  table := nameT k
  tableEnd := Space.one.toGap
  columns := [listed (nameA column)]
  nonempty := by simp
  options := []
  isPartOptions := isFree_nil.isPart
  ends := by simp
  noTable := by decide

/-- The table and the index, the column of the index quoted in one way and all other names in another. -/
def keyedScript (column : Quoting) : List ScriptPart :=
  [⟨noBlanks, some (.table (keyedTable k)), noBlanks⟩, ⟨Space.one.toGap, some (.index (keyedIndex k column)), noBlanks⟩]

end

end Ddl

namespace Schema

open Ddl ScriptPart

/-- A script without quotes leaves behind the schema that the script does, with the columns of its indexes without
quotes, and that very schema when no column of an index is in quotes. -/
theorem afterText_script_bare (s : Schema) (ps : List ScriptPart) :
    s.unquoted.afterText (script (ps.map bare)) = (s.afterText (script ps)).unquoted ∧
      ((∀ p ∈ ps, ∀ c ∈ p.statement, c.hasBareColumns) →
        s.afterText (script (ps.map bare)) = s.afterText (script ps)) := by
  refine ⟨?_, fun h => ?_⟩
  · rw [afterText_eq_afterEvents, afterText_eq_afterEvents, ofText_script_bare, unquoted_afterEvents]
  · rw [afterText_eq_afterEvents, afterText_eq_afterEvents, ofText_script_bare_of_hasBareColumns h]

/-- Double quotes in the right places change nothing. -/
theorem afterText_script_bare_keyed :
    script (keyedScript .double .bare) = ("CREATE TABLE \"t\" (\"a\" INT DEFAULT 0 NOT NULL REFERENCES \"u\"(\"b\")," ++
      "PRIMARY KEY (\"a\"),FOREIGN KEY (\"a\") REFERENCES \"u\"(\"b\")); CREATE INDEX \"i\" ON \"t\" (a)").toList ∧
    empty.afterText (script (keyedScript .bare .bare)) = empty.afterText (script (keyedScript .double .bare)) :=
  ⟨by decide +kernel, (afterText_script_bare empty (keyedScript .double .bare)).2 (by decide +kernel)⟩

/-- Around the column of an index they do. -/
theorem afterText_script_bare_indexColumn :
    script (keyedScript .bare .double) = ("CREATE TABLE t (a INT DEFAULT 0 NOT NULL REFERENCES u(b)," ++
      "PRIMARY KEY (a),FOREIGN KEY (a) REFERENCES u(b)); CREATE INDEX i ON t (\"a\")").toList ∧
    (keyedScript .bare .double).map bare = keyedScript .bare .bare ∧
    empty.afterText (script (keyedScript .bare .bare)) ≠ empty.afterText (script (keyedScript .bare .double)) := by
  refine ⟨by decide +kernel, rfl, by decide +kernel⟩

end Schema

end SqlSurvey
