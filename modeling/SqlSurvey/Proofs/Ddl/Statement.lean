import SqlSurvey.Proofs.Schema.Shapes
import SqlSurvey.Proofs.Ddl.Table
import SqlSurvey.Proofs.Ddl.Index

/-!
# Statements that are read back

A table is read back from its statement item by item, and nowhere in that statement is an index created.
A statement of either kind is one statement and one event.
-/

namespace SqlSurvey.Ddl

open Pattern

variable {n s : List Char} {last : Option Char}

/-! ## The items of a table -/

/-- Columns join the table in order, and their keys the primary key. -/
theorem foldl_addItem_columns {cs : List Column} (h : ∀ c ∈ cs, c.Renderable) (t : Table) :
    (cs.map Column.render).foldl addItem t =
      { t with
        columns := t.columns ++ cs
        primaryKey := t.primaryKey ++ (cs.filter Column.isPrimaryKey).map Column.name } := by
  induction cs generalizing t with
  | nil => simp
  | cons c cs ih =>
    have hc : c.Renderable := h c List.mem_cons_self
    rw [List.map_cons, List.foldl_cons, addItem_render_column hc,
      ih fun d hd => h d (List.mem_cons_of_mem c hd)]
    cases hKey : c.isPrimaryKey <;> simp [Table.addColumn, hKey]

/-- Foreign keys join the table in order. -/
theorem foldl_addItem_foreignKeys {ks : List ForeignKey} (h : ∀ k ∈ ks, k.Renderable) (t : Table) :
    (ks.map ForeignKey.render).foldl addItem t = { t with foreignKeys := t.foreignKeys ++ ks } := by
  induction ks generalizing t with
  | nil => simp
  | cons k ks ih =>
    rw [List.map_cons, List.foldl_cons, addItem_render_foreignKey (h k List.mem_cons_self),
      ih fun l hl => h l (List.mem_cons_of_mem k hl)]
    simp

/-- The declared names join the primary key. -/
theorem foldl_addItem_keyItems {names : List String} (h : ∀ c ∈ names, Text.isIdentifier c.toList = true)
    (t : Table) : (Table.keyItems names).foldl addItem t = { t with primaryKey := t.primaryKey ++ names } := by
  by_cases hNil : names = []
  · simp [Table.keyItems, hNil]
  · rw [Table.keyItems, if_neg hNil, List.foldl_cons, List.foldl_nil, addItem_keyItem hNil h]

/-- Whatever is written into the body of a table is an item. -/
theorem isItem_items {t : Table} (h : t.Renderable) : ∀ u ∈ t.items, Sql.IsItem u := by
  intro u hu
  rw [Table.items, List.mem_append, List.mem_append] at hu
  rcases hu with (hu | hu) | hu
  · obtain ⟨c, hc, rfl⟩ := List.mem_map.1 hu
    exact isItem_render_column (h.columns c hc)
  · by_cases hNil : t.declaredKey = []
    · simp [Table.keyItems, hNil] at hu
    · rw [Table.keyItems, if_neg hNil, List.mem_singleton] at hu
      obtain ⟨hTame, hChars⟩ := tame_namesText h.declared
      rw [hu]
      exact isItem_keyItem hTame hChars
  · obtain ⟨k, hk, rfl⟩ := List.mem_map.1 hu
    exact isItem_render_foreignKey (h.foreignKeys k hk)

/-- A table is read back from its statement, but for its indexes. -/
theorem readTable?_render {t : Table} (h : t.Renderable) : readTable? t.render = some t.withoutIndexes := by
  have hItems := isItem_items h
  have hTame : Sql.tame (Sql.commaList t.items) = true := Sql.tame_commaList fun u hu => (hItems u hu).tame
  have hBalanced : Sql.balanced 0 (Sql.pieces Sql.isSingleQuote (Sql.commaList t.items)) = true := by
    rw [Sql.pieces_of_tame (fun _ => Sql.isTame_of_isSingleQuote) hTame]
    exact Sql.balanced_commaList fun u hu => (hItems u hu).item
  have hBody := Sql.bodyAfterParen_append (Sql.closed_of_tame hTame) hBalanced []
  have hName : String.ofList (Hit.groupText ⟨"CREATE TABLE ".toList ++ t.name.toList ++ " (".toList,
      [(1, t.name.toList)], Sql.commaList t.items ++ [')']⟩ 1) = t.name := String.ofList_toList
  have hKey := h.key
  rw [Table.inlineKey] at hKey
  rw [readTable?, Table.render_eq, find_createTableHead (Text.ne_nil_of_isIdentifier h.name)
    (Text.isWordChar_of_isIdentifier h.name)]
  simp only [Option.bind_eq_bind, Option.bind_some, hBody, Sql.items_commaList hItems, hName]
  rw [Table.items, List.foldl_append, List.foldl_append, foldl_addItem_columns h.columns,
    foldl_addItem_keyItems h.declared, foldl_addItem_foreignKeys h.foreignKeys]
  simp [Table.named, Table.withoutIndexes, ← hKey]

/-! ## No index in a table -/

/-- The part of a clause for an index that comes before the list: ON, the table and a gap. -/
def onTable : Pattern := keyword "ON".toList ++ blanks ++ name 3 ++ gap

/-- A parenthesis or a comma. -/
def isListMark (c : Char) : Bool := c == '(' || c == ')' || c == ','

theorem avoids_onTable : onTable.Avoids isListMark := by
  have hMark : ∀ {B : Char → Bool}, (B '(' = false ∧ B ')' = false ∧ B ',' = false) →
      ∀ c, isListMark c = true → B c = false := by
    intro B hB c hc
    simp only [isListMark, Bool.or_eq_true, beq_iff_eq] at hc
    rcases hc with (rfl | rfl) | rfl
    · exact hB.1
    · exact hB.2.1
    · exact hB.2.2
  have hLetters : ∀ l ∈ "ON".toList, Text.sameLetter l '(' = false ∧ Text.sameLetter l ')' = false ∧
      Text.sameLetter l ',' = false := by decide
  have hOn : (keyword "ON".toList).Avoids isListMark := avoids_keyword fun l hl => hMark (hLetters l hl)
  have hName : (name 3).Avoids isListMark :=
    ⟨⟨⟨hMark (by decide), trivial⟩, hMark (by decide)⟩, hMark (by decide), trivial⟩
  exact ⟨⟨⟨hOn, hMark (by decide)⟩, hName⟩, hMark (by decide), trivial⟩

theorem refuses_onTable (q : Pattern) : (onTable ++ q).Refuses fun c => !Text.sameLetter 'O' c :=
  ((((refuses_keyword (l := 'O') fun c hc => by simpa using hc).append _).append _).append _).append q

/-- Before a parenthesis that stands after a word, ON and a table are not found when the word is the only one
that may begin with an O. -/
theorem findFrom_onTable_atEnd {l r : List Char} (hl : ∀ c ∈ l, (!Text.sameLetter 'O' c) = true)
    (hn : Text.isIdentifier n = true) (hr : r = [] ∨ r = [' ']) :
    (onTable ++ atEnd).findFrom last (l ++ (n ++ r)) = none := by
  have hNext : (blanks ++ (name 3 ++ (gap ++ atEnd))).Refuses Text.isWordChar := refuses_blanks.append _
  have hHead : ∀ c ∈ r.head?, Text.isWordChar c = false := by
    rcases hr with rfl | rfl <;> simp
    decide
  have hNone : ∀ last, (blanks ++ (name 3 ++ (gap ++ atEnd))).hits last r = [] := by
    intro last
    rcases hr with rfl | rfl <;> rfl
  have hWord : (keyword "ON".toList ++ (blanks ++ (name 3 ++ (gap ++ atEnd)))).PassesOver (lastOf last l) n r :=
    passesOver_word (by decide) (isWordChar_of_isLettered (by decide)) (Text.isWordChar_of_isIdentifier hn)
      hHead hNext hNone
  rw [findFrom_append ((refuses_onTable atEnd).passesOver hl), onTable, findFrom_append_assoc,
    findFrom_append_assoc, findFrom_append_assoc, findFrom_append hWord]
  rcases hr with rfl | rfl <;> rfl

/-- A search for ON, a table and a list passes over a text without lists. -/
theorem passesOver_onTable {a b : List Char} {d : Char} (hd : isListMark d = true) (ha : ∀ c ∈ a, c ≠ '(')
    (hEnd : d ≠ '(' ∨ (onTable ++ atEnd).findFrom last a = none) :
    (onTable ++ parenthesized 4).PassesOver last a (d :: b) :=
  passesOver_append (B := fun c => c != '(') avoids_onTable hd (refuses_parenthesized 4 (by decide))
    (fun c hc => by simpa using ha c hc) (hEnd.imp_left fun h => by simpa using h)

theorem passesOver_onTable_open (b : List Char) : (onTable ++ parenthesized 4).PassesOver last ['('] b :=
  (refuses_onTable _).passesOver (by decide)

/-- The same for a text with one list, when ON and a table do not stand right before it. -/
theorem passesOver_onTable_list {a r b : List Char} {d : Char} (hd : d = ',' ∨ d = ')') (ha : ∀ c ∈ a, c ≠ '(')
    (hEnd : ∀ last, (onTable ++ atEnd).findFrom last a = none) (hr : ∀ c ∈ r, c ≠ '(') :
    (onTable ++ parenthesized 4).PassesOver last (a ++ (['('] ++ r)) (d :: b) := by
  have hMark : isListMark d = true ∧ d ≠ '(' := by rcases hd with rfl | rfl <;> decide
  have hList : ∀ last, (onTable ++ parenthesized 4).PassesOver last r (d :: b) := fun _ =>
    passesOver_onTable hMark.1 hr (.inl hMark.2)
  exact (passesOver_onTable rfl ha (.inr (hEnd last))).append ((passesOver_onTable_open _).append (hList _))

/-- No foreign key contains ON, a table and a list. -/
theorem passesOver_onTable_foreignKey {k : ForeignKey} (h : k.Renderable) {d : Char} {b : List Char}
    (hd : d = ',' ∨ d = ')') : (onTable ++ parenthesized 4).PassesOver last k.render (d :: b) := by
  have hName : ∀ {w : List Char}, Text.isIdentifier w = true → ∀ c ∈ w, c ≠ '(' := fun hw =>
    Text.ne_of_mem_identifier hw (by decide)
  obtain ⟨-, hActions, -⟩ := isItem_actions _ (mem_actions h.onDelete) _ (mem_actions h.onUpdate)
  have hReferences : ∀ c ∈ " REFERENCES ".toList ++ (k.referencesTable.toList ++ []), c ≠ '(' := by
    have hWord : ∀ c ∈ " REFERENCES ".toList, c ≠ '(' := by decide
    intro c hc
    rw [List.append_nil] at hc
    rcases List.mem_append.1 hc with hc | hc
    · exact hWord c hc
    · exact hName h.referencesTable c hc
  have hRest : ∀ c ∈ k.referencesColumn.toList ++ ([')'] ++ ForeignKey.actions k.onDelete k.onUpdate),
      c ≠ '(' := by
    intro c hc
    rcases List.mem_append.1 hc with hc | hc
    · exact hName h.referencesColumn c hc
    · rcases List.mem_append.1 hc with hc | hc
      · rw [List.mem_singleton.1 hc]
        decide
      · rintro rfl
        exact absurd (List.all_eq_true.1 hActions _ hc) (by decide)
  have hFirst : ∀ b, (onTable ++ parenthesized 4).PassesOver last
      ("FOREIGN KEY ".toList ++ (['('] ++ k.column.toList)) (')' :: b) := fun _ =>
    passesOver_onTable_list (.inr rfl) (by decide) (fun _ => rfl) (hName h.column)
  have hClose : ∀ last b, (onTable ++ parenthesized 4).PassesOver last [')'] b := fun _ _ =>
    (refuses_onTable _).passesOver (by decide)
  have hSecond : ∀ last, (onTable ++ parenthesized 4).PassesOver last
      (" REFERENCES ".toList ++ (k.referencesTable.toList ++ []) ++ (['('] ++ (k.referencesColumn.toList ++
        ([')'] ++ ForeignKey.actions k.onDelete k.onUpdate)))) (d :: b) := fun _ =>
    passesOver_onTable_list hd hReferences
      (fun _ => findFrom_onTable_atEnd (by decide) h.referencesTable (.inl rfl)) hRest
  have hText : k.render = "FOREIGN KEY ".toList ++ (['('] ++ k.column.toList) ++ ([')'] ++
      (" REFERENCES ".toList ++ (k.referencesTable.toList ++ []) ++ (['('] ++ (k.referencesColumn.toList ++
        ([')'] ++ ForeignKey.actions k.onDelete k.onUpdate))))) := by
    rw [ForeignKey.render_eq]
    simp
  rw [hText]
  exact (hFirst _).append ((hClose _ _).append (hSecond _))

/-- No item of a table contains ON, a table and a list. -/
theorem passesOver_onTable_item {t : Table} (h : t.Renderable) : ∀ u ∈ t.items, ∀ last d b, d = ',' ∨ d = ')' →
    (onTable ++ parenthesized 4).PassesOver last u (d :: b) := by
  intro u hu last d b hd
  rw [Table.items, List.mem_append, List.mem_append] at hu
  rcases hu with (hu | hu) | hu
  · obtain ⟨c, hc, rfl⟩ := List.mem_map.1 hu
    have hMark : isListMark d = true ∧ d ≠ '(' := by rcases hd with rfl | rfl <;> decide
    refine passesOver_onTable hMark.1 ?_ (.inl hMark.2)
    rintro e he rfl
    exact absurd (isItemChar_of_mem_render (h.columns c hc) _ he) (by decide)
  · by_cases hNil : t.declaredKey = []
    · simp [Table.keyItems, hNil] at hu
    · rw [Table.keyItems, if_neg hNil, List.mem_singleton] at hu
      have hOpen : '(' ∉ namesText t.declaredKey :=
        not_mem_namesText h.declared (by decide) (by decide) (by decide)
      have hText : u = "PRIMARY KEY ".toList ++
          (['('] ++ (namesText t.declaredKey ++ [')'])) := by simp [hu]
      rw [hText]
      refine passesOver_onTable_list hd (by decide) (fun _ => rfl) ?_
      rintro c hc rfl
      simp [hOpen] at hc
  · obtain ⟨k, hk, rfl⟩ := List.mem_map.1 hu
    exact passesOver_onTable_foreignKey (h.foreignKeys k hk) hd

/-- No clause for an index stands in a statement for a table, whatever the names are. -/
theorem readIndex?_render_table {t : Table} (h : t.Renderable) : readIndex? t.render = none := by
  have hHead : ∀ c ∈ "CREATE TABLE ".toList ++ (t.name.toList ++ [' ']), c ≠ '(' := by
    have hWord : ∀ c ∈ "CREATE TABLE ".toList, c ≠ '(' := by decide
    intro c hc
    rcases List.mem_append.1 hc with hc | hc
    · exact hWord c hc
    · rcases List.mem_append.1 hc with hc | hc
      · exact Text.ne_of_mem_identifier h.name (by decide) c hc
      · rw [List.mem_singleton.1 hc]
        decide
  have hTable : ∀ b, (onTable ++ parenthesized 4).PassesOver none
      ("CREATE TABLE ".toList ++ (t.name.toList ++ [' '])) ('(' :: b) := fun _ =>
    passesOver_onTable rfl hHead (.inr (findFrom_onTable_atEnd (by decide) h.name (.inr rfl)))
  have hItems : ∀ last, (onTable ++ parenthesized 4).PassesOver last (Sql.commaList t.items) [')'] :=
    fun last => passesOver_commaList (refuses_onTable _) (by decide) (by decide) (passesOver_onTable_item h) last []
  have hText : t.render = "CREATE TABLE ".toList ++ (t.name.toList ++ [' ']) ++
      (['('] ++ Sql.commaList t.items) ++ [')'] := by
    rw [Table.render_eq]
    simp
  have hNone : (onTable ++ parenthesized 4).findFrom none t.render = none := by
    rw [hText, findFrom_append ((hTable _).append ((passesOver_onTable_open _).append (hItems _)))]
    rfl
  rw [onTable, findFrom_append_assoc, findFrom_append_assoc, findFrom_append_assoc] at hNone
  have hClause : createIndexClause.find t.render = none := by
    rw [find, createIndexClause, findFrom_append_assoc, findFrom_append_assoc, findFrom_append_assoc,
      findFrom_append_assoc]
    exact findFrom_append_of_right hNone
  rw [readIndex?, hClause]
  rfl

end SqlSurvey.Ddl

namespace SqlSurvey

/-! ## Statements as they are written down -/

theorem Table.tame_render {t : Table} (h : t.Renderable) : Sql.tame t.render = true := by
  have hItems : Sql.tame (Sql.commaList t.items) = true :=
    Sql.tame_commaList fun u hu => (Ddl.isItem_items h u hu).tame
  rw [Table.render_eq]
  exact Sql.tame_append (Sql.tame_append (Sql.tame_append (by decide) (Sql.tame_of_isIdentifier h.name))
    (by decide)) (Sql.tame_append hItems (by decide))

theorem Index.tame_render {table : String} {i : Index} (ht : Text.isIdentifier table.toList = true)
    (h : i.Renderable) : Sql.tame (i.render table) = true := by
  have hUnique : Sql.tame ("CREATE ".toList ++ (if i.isUnique then "UNIQUE ".toList else []) ++
      "INDEX ".toList) = true := by cases i.isUnique <;> decide
  have hOn := Sql.tame_append (Sql.tame_append hUnique (Sql.tame_of_isIdentifier h.name))
    (show Sql.tame " ON ".toList = true by decide)
  rw [Index.render_eq]
  exact Sql.tame_append (Sql.tame_append (Sql.tame_append (Sql.tame_append hOn (Sql.tame_of_isIdentifier ht))
    (by decide)) (Ddl.tame_namesText h.columns).1) (by decide)

namespace SchemaEvent

variable {e : SchemaEvent}

theorem tame_render (h : e.Renderable) : Sql.tame e.render = true := by
  cases h with
  | table h _ => exact Table.tame_render h
  | index hName h => exact Index.tame_render hName h

/-- A statement begins with CREATE and ends with a parenthesis. -/
theorem exists_render_eq (e : SchemaEvent) : ∃ s, e.render = "CREATE".toList ++ s ++ [')'] := by
  cases e with
  | table t =>
    refine ⟨" TABLE ".toList ++ (t.name.toList ++ (" (".toList ++ Sql.commaList t.items)), ?_⟩
    show t.render = _
    rw [Table.render_eq]
    simp
  | index table i =>
    refine ⟨[' '] ++ (Ddl.uniqueWord i.isUnique ++ ("INDEX ".toList ++ (i.name.toList ++ (" ON ".toList ++
      (table.toList ++ (" (".toList ++ namesText i.columns)))))), ?_⟩
    show i.render table = _
    rw [Index.render_eq, ← Ddl.uniqueWord]
    simp

theorem trim_render (e : SchemaEvent) : Text.trim e.render = e.render := by
  obtain ⟨s, hs⟩ := exists_render_eq e
  rw [hs]
  refine Text.trim_eq_self (by simp; decide) ?_
  rw [List.getLast?_append_of_ne_nil _ (by simp)]
  decide

/-- What is written down for an event is one statement. -/
theorem statements_render (h : e.Renderable) : Sql.statements e.render = [e.render] := by
  obtain ⟨s, hs⟩ := exists_render_eq e
  exact Sql.statements_of_tame (tame_render h) (by simp [hs]) (trim_render e)

/-- The statement of an event is read as that event and nothing else. -/
theorem ofStatement_render (h : e.Renderable) : ofStatement e.render = [e] := by
  cases h with
  | @table t h hIndexes =>
    have hSame : t.withoutIndexes = t := by rw [Table.withoutIndexes, ← hIndexes]
    show ofStatement t.render = _
    rw [ofStatement_eq, Ddl.readTable?_render h, Ddl.readIndex?_render_table h, hSame]
    rfl
  | @index name i hName h =>
    show ofStatement (i.render name) = _
    rw [ofStatement_eq, Ddl.readTable?_eq_none (Ddl.createsTable_render_index hName h), Ddl.readIndex?_render hName h]
    rfl

/-- The text of an event is read as that event. -/
theorem ofText_render (h : e.Renderable) : ofText e.render = [e] := by
  rw [ofText, statements_render h, List.flatMap_singleton, ofStatement_render h]

end SchemaEvent

end SqlSurvey
