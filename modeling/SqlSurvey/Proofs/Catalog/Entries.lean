import SqlSurvey.Catalog.Basic
import SqlSurvey.Proofs.Query.Tables

/-!
# What the catalogue shows

The entries of a catalogue against the declarations that they are made of. The tables of an entry are taken from the
texts of its literals, but they are those of the queries as they are shown.
-/

namespace SqlSurvey

/-- The tables that can be seen in the text of a query. -/
def Query.shownTables (q : Query) : List String := (tables q.sql.toList).map String.ofList

/-- What it takes for an entry to show a declaration. -/
structure FunctionEntry.Shows (e : FunctionEntry) (d : Declaration) : Prop where
  name : e.name = d.name
  params : e.params = d.params
  isExported : e.isExported = d.isExported
  line : e.line = d.line
  /-- The queries are the literals that look like SQL, in order, with single spaces and with their lines. -/
  queries : e.sqlQueries = (d.literals.filter fun l => looksLikeSql (Text.trim l.body)).map fun l =>
    ⟨String.ofList (Text.collapse l.body), Query.Kind.classify (Text.trim l.body), l.span.line⟩
  /-- No table is named twice. -/
  nodup : e.tablesUsed.Nodup
  /-- The tables are those that can be seen in the queries, each where it is first seen. -/
  tables : e.tablesUsed = (e.sqlQueries.flatMap Query.shownTables).eraseDups

namespace Declaration

variable (d : Declaration)

theorem sqlTexts_eq : d.sqlTexts = (d.literals.filter fun l => looksLikeSql (Text.trim l.body)).map fun l =>
    (Text.trim l.body, l.span.line) := List.filter_map

theorem shownTables_ofText (sql : List Char) (line : Nat) :
    (Query.ofText sql line).shownTables = (Query.tables sql).map String.ofList := by
  rw [Query.shownTables, Query.ofText, String.toList_ofList, Query.tables_collapse]

theorem tablesUsed_entry : d.entry.tablesUsed = (d.entry.sqlQueries.flatMap Query.shownTables).eraseDups := by
  have hInjective : Function.Injective String.ofList := fun s t h => by simpa using congrArg String.toList h
  calc d.entry.tablesUsed
      = ((d.sqlTexts.flatMap fun t => Query.tables t.1).eraseDups).map String.ofList := by
        rw [← Query.distinct_eq_eraseDups]
        rfl
    _ = (d.sqlTexts.flatMap fun t => (Query.tables t.1).map String.ofList).eraseDups := by
        rw [← eraseDups_map hInjective, List.map_flatMap]
    _ = (d.entry.sqlQueries.flatMap Query.shownTables).eraseDups := by
        simp only [entry, List.flatMap_map, shownTables_ofText]

theorem entry_shows : d.entry.Shows d where
  name := rfl
  params := rfl
  isExported := rfl
  line := rfl
  queries := by
    rw [entry, sqlTexts_eq, List.map_map]
    refine List.map_congr_left fun l _ => ?_
    show Query.ofText (Text.trim l.body) l.span.line = _
    rw [Query.ofText, Text.collapse_trim]
  nodup := by
    rw [tablesUsed_entry]
    exact nodup_eraseDups _
  tables := d.tablesUsed_entry

end Declaration

/-- A catalogue has one entry for each declaration, in order, and the tables of each entry are those that can be seen
in the queries it shows; for a text with single spaces touches the same tables as the text. -/
theorem Catalog.ofDeclarations_shows (ds : List Declaration) :
    List.Forall₂ (fun d e => FunctionEntry.Shows e d) ds (ofDeclarations ds).functions ∧
      ∀ sql, Query.tables (Text.collapse sql) = Query.tables sql := by
  refine ⟨?_, Query.tables_collapse⟩
  rw [ofDeclarations, List.forall₂_map_right_iff, List.forall₂_same]
  exact fun d _ => d.entry_shows

/-- A query laid out over lines, a text that is no query, and a query on a table that has been seen. -/
example : (Catalog.ofDeclarations [⟨"sync", [], none, true, none, 1,
      [⟨"\n  SELECT * FROM\tposts p\n  JOIN\n users u ".toList, ⟨0, 40, 2, 1⟩⟩, ⟨"not sql".toList, ⟨50, 7, 3, 1⟩⟩,
        ⟨"UPDATE users SET seen = 1".toList, ⟨60, 25, 4, 1⟩⟩]⟩]).functions.map
      (fun f => (f.sqlQueries.map Query.sql, f.tablesUsed)) =
    [(["SELECT * FROM posts p JOIN users u", "UPDATE users SET seen = 1"], ["posts", "users"])] := by
  decide +kernel

end SqlSurvey
