import SqlSurvey.Proofs.Ddl.Event
import SqlSurvey.Proofs.Ddl.Written

/-!
# Foreign keys as they are written

A clause for a foreign key of the table, with any number of columns on either side, each in quotes or without them,
with any blanks between its tokens and its keywords in any case, and with what happens on deletion and on update in
either order. It declares one foreign key for each pair of columns.
-/

namespace SqlSurvey.Ddl

open Pattern

/-- A clause for a foreign key of the table, with its columns in pairs: what refers and what is referred to. -/
structure KeyClause extends KeyTokens where
  pairs : List (ListedName × ListedName)
  nonempty : pairs ≠ []
  events : EventClauses
  after : Gap

namespace KeyClause

/-- The columns that refer. -/
def columns (k : KeyClause) : List ListedName := k.pairs.map Prod.fst

/-- The columns that are referred to. -/
def referenced (k : KeyClause) : List ListedName := k.pairs.map Prod.snd

/-- The text of a clause. -/
def text (k : KeyClause) : List Char :=
  k.toKeyTokens.text (ListedName.list k.columns) (ListedName.list k.referenced) ++ k.events.textBefore k.after.text

/-- The foreign keys that a clause declares. -/
def foreignKeys (k : KeyClause) : List ForeignKey :=
  k.pairs.map fun p => {
    column := String.ofList p.1.name
    referencesTable := String.ofList k.table.name
    referencesColumn := String.ofList p.2.name
    onDelete := k.events.onDelete.map fun a => String.ofList a.shown
    onUpdate := k.events.onUpdate.map fun a => String.ofList a.shown }

theorem columns_ne_nil (k : KeyClause) : k.columns ≠ [] := by simpa [columns] using k.nonempty

theorem referenced_ne_nil (k : KeyClause) : k.referenced ≠ [] := by simpa [referenced] using k.nonempty

end KeyClause

/-- A clause declares one foreign key for each pair of columns, all with the actions that it names. -/
theorem readForeignKeys_text (k : KeyClause) : readForeignKeys k.text = k.foreignKeys := by
  obtain ⟨hDelete, hUpdate⟩ := actionOn_textBefore k.events k.after
  have hColumns : nameList (ListedName.list k.columns) = k.pairs.map fun p => p.1.name := by
    rw [ListedName.nameList_list k.columns_ne_nil, KeyClause.columns, List.map_map]
    rfl
  have hReferenced : nameList (ListedName.list k.referenced) = k.pairs.map fun p => p.2.name := by
    rw [ListedName.nameList_list k.referenced_ne_nil, KeyClause.referenced, List.map_map]
    rfl
  have hRead : readForeignKeys k.text = List.zipWith
      (fun column referenced => {
        column := String.ofList column
        referencesTable := String.ofList k.table.name
        referencesColumn := String.ofList referenced
        onDelete := actionOn "DELETE" (k.events.textBefore k.after.text)
        onUpdate := actionOn "UPDATE" (k.events.textBefore k.after.text) })
      (nameList (ListedName.list k.columns)) (nameList (ListedName.list k.referenced)) := by
    rw [readForeignKeys, KeyClause.text, k.toKeyTokens.find (ListedName.list_ne_nil k.columns_ne_nil)
      (ListedName.not_mem_list _) (ListedName.list_ne_nil k.referenced_ne_nil) (ListedName.not_mem_list _)]
    rfl
  rw [hRead, hColumns, hReferenced, hDelete, hUpdate, List.zipWith_map, List.zipWith_self, KeyClause.foreignKeys]

example : readForeignKeys "foreign\tkey (\"a\", [b])\nREFERENCES t(x ,y) on update set\n null ON DELETE cascade".toList =
    [⟨"a", "t", "x", some "cascade", some "set null"⟩, ⟨"b", "t", "y", some "cascade", some "set null"⟩] := by
  decide +kernel

end SqlSurvey.Ddl
