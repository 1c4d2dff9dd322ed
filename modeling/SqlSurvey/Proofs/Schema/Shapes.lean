import SqlSurvey.Literal.Fragment
import SqlSurvey.Proofs.Pattern.Inclusion

/-!
# The shapes of statements

A statement is read as one that creates a table, or as one that creates an index, only if it has the shape of one.
The shape is how every such statement begins, so no statement that can be read is passed over for the lack of it, and
a schema takes in what it would take in if every statement were read in both ways.
-/

namespace SqlSurvey

namespace Ddl

open Pattern

variable {sql : List Char}

/-! ## What can be read has the shape -/

theorem createTableHead_needs : createTableHead.Needs createTableShape :=
  (((((needs_self createTableShape).append _).append _).append _).append _).append _

/-- The beginning of the clause for an index, up to INDEX. -/
def createIndexWords : Pattern :=
  keyword "CREATE".toList ++ blanks ++ maybe (group 1 (keyword "UNIQUE".toList ++ blanks)) ++ keyword "INDEX".toList

theorem withoutParts_createIndexWords : createIndexWords.withoutParts = createIndexShape := by
  simp [createIndexWords, createIndexShape]

theorem createIndexClause_needs : createIndexClause.Needs createIndexShape := by
  have hWords : createIndexWords.Needs createIndexShape := by
    rw [← withoutParts_createIndexWords]
    exact needs_withoutParts createIndexWords
  exact ((((((((hWords.append _).append _).append _).append _).append _).append _).append _).append _).append _

theorem createsTable_of_readTable? {t : Table} (h : readTable? sql = some t) : createsTable sql = true := by
  refine createTableHead_needs.occursIn ?_
  obtain ⟨head, hHead, -⟩ := Option.bind_eq_some_iff.1 h
  rw [occursIn, hHead, Option.isSome_some]

theorem createsIndex_of_readIndex? {p : String × Index} (h : readIndex? sql = some p) : createsIndex sql = true := by
  refine createIndexClause_needs.occursIn ?_
  obtain ⟨clause, hClause, -⟩ := Option.map_eq_some_iff.1 h
  rw [occursIn, hClause, Option.isSome_some]

theorem readTable?_eq_none (h : createsTable sql = false) : readTable? sql = none :=
  Option.eq_none_iff_forall_ne_some.2 fun _ ht => Bool.false_ne_true (h.symm.trans (createsTable_of_readTable? ht))

theorem readIndex?_eq_none (h : createsIndex sql = false) : readIndex? sql = none :=
  Option.eq_none_iff_forall_ne_some.2 fun _ hp => Bool.false_ne_true (h.symm.trans (createsIndex_of_readIndex? hp))

end Ddl

/-- The events of a statement are what can be read in it, whatever its shape. -/
theorem SchemaEvent.ofStatement_eq (sql : List Char) : ofStatement sql =
    (Ddl.readTable? sql).toList.map table ++ (Ddl.readIndex? sql).toList.map fun p => index p.1 p.2 := by
  have hTable : ¬ Ddl.createsTable sql = true → [] = (Ddl.readTable? sql).toList.map table := fun h => by
    rw [Ddl.readTable?_eq_none (Bool.eq_false_iff.2 h), Option.toList_none, List.map_nil]
  have hIndex : ¬ Ddl.createsIndex sql = true →
      [] = (Ddl.readIndex? sql).toList.map fun p => index p.1 p.2 := fun h => by
    rw [Ddl.readIndex?_eq_none (Bool.eq_false_iff.2 h), Option.toList_none, List.map_nil]
  rw [ofStatement, ite_eq_left_iff.2 hTable, ite_eq_left_iff.2 hIndex]

namespace Schema

/-! ## Schemas -/

/-- The schema after a statement that is read in both ways, first as one that creates a table and then as one that
creates an index, without a look at its shape. -/
def afterReadings (s : Schema) (sql : List Char) : Schema :=
  let withTable := match Ddl.readTable? sql with
    | some t => s.add t
    | none => s
  match Ddl.readIndex? sql with
  | some (table, i) => withTable.modify table fun t => t.addIndex i
  | none => withTable

theorem afterStatement_eq_afterReadings (s : Schema) (sql : List Char) : s.afterStatement sql = s.afterReadings sql := by
  rw [afterStatement, SchemaEvent.ofStatement_eq, afterReadings]
  cases Ddl.readTable? sql <;> cases Ddl.readIndex? sql <;> rfl

/-- A text is taken in statement by statement, each of them read in both ways. -/
theorem afterText_eq_foldl_afterReadings (s : Schema) (sql : List Char) :
    s.afterText sql = (Sql.statements sql).foldl afterReadings s :=
  List.foldl_ext _ _ s fun s statement _ => afterStatement_eq_afterReadings s statement

/-- So is a source, fragment by fragment. -/
theorem afterSource_eq_foldl_afterReadings (s : Schema) (source : List Char) : s.afterSource source =
    (Fragment.allIn source).foldl (fun s f => (Sql.statements f.text).foldl afterReadings s) s :=
  List.foldl_ext _ _ s fun s f _ => afterText_eq_foldl_afterReadings s f.text

/-- A statement that can be read as one that creates a table has the shape of one, a statement that can be read as one
that creates an index has the shape of one, and every schema takes in the same without a look at the shapes. -/
theorem afterStatement_without_shapes (sql : List Char) :
    (∀ t, Ddl.readTable? sql = some t → Ddl.createsTable sql = true) ∧
      (∀ name i, Ddl.readIndex? sql = some (name, i) → Ddl.createsIndex sql = true) ∧
      ∀ s : Schema, s.afterStatement sql = s.afterReadings sql :=
  ⟨fun _ => Ddl.createsTable_of_readTable?, fun _ _ => Ddl.createsIndex_of_readIndex?,
    fun s => afterStatement_eq_afterReadings s sql⟩

/-- A table and an index in one statement, with blanks that are no spaces and a long s in EXISTS. -/
def tableAndIndex : List Char :=
  "Create\u3000Table If Not Exi\u017fts [u] (a INT) Create Unique\u00a0Index i On t (a)".toList

/-- The index joins a table that was there before. -/
theorem afterStatement_without_shapes_tableAndIndex :
    Ddl.readTable? tableAndIndex = some ⟨"u", [⟨"a", "INT", true, false, false, none⟩], [], [], []⟩ ∧
      Ddl.createsTable tableAndIndex = true ∧
      Ddl.readIndex? tableAndIndex = some ("t", ⟨"i", ["a"], true⟩) ∧ Ddl.createsIndex tableAndIndex = true ∧
      (ofTables [Table.named "t"]).afterStatement tableAndIndex =
        ⟨[⟨"t", [], [], [], [⟨"i", ["a"], true⟩]⟩, ⟨"u", [⟨"a", "INT", true, false, false, none⟩], [], [], []⟩]⟩ := by
  have hReadTable : Ddl.readTable? tableAndIndex =
      some ⟨"u", [⟨"a", "INT", true, false, false, none⟩], [], [], []⟩ := by decide +kernel
  have hReadIndex : Ddl.readIndex? tableAndIndex = some ("t", ⟨"i", ["a"], true⟩) := by decide +kernel
  obtain ⟨hTable, hIndex, hSchema⟩ := afterStatement_without_shapes tableAndIndex
  refine ⟨hReadTable, hTable _ hReadTable, hReadIndex, hIndex _ _ hReadIndex, ?_⟩
  rw [hSchema]
  decide +kernel

/-- A statement may have the shape and yet not be read. -/
example : Ddl.createsTable "CREATE TABLE t".toList = true ∧ Ddl.readTable? "CREATE TABLE t".toList = none := by
  decide +kernel

end Schema

end SqlSurvey
