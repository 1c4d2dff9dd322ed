import SqlSurvey.Proofs.Ddl.ColumnText

/-!
# Items of a table whatever the quotes of their names are

Besides its columns a table has keys with lists of names, which may be called by a name of their own and are then left
out, and other constraints. What each of them adds to the table does not depend on the quotes.
-/

namespace SqlSurvey.Ddl

open Pattern

variable {s : List Char} {first second : String}

/-- The same list without quotes. -/
def ListedName.bareAll (ns : List ListedName) : List ListedName := ns.map ListedName.bare

theorem ListedName.bareAll_ne_nil {ns : List ListedName} (h : ns ≠ []) : bareAll ns ≠ [] := by simpa [bareAll] using h

theorem ListedName.nameList_list_bareAll {ns : List ListedName} (h : ns ≠ []) :
    nameList (list (bareAll ns)) = nameList (list ns) := by
  rw [nameList_list (bareAll_ne_nil h), nameList_list h, bareAll, List.map_map]
  rfl

theorem isBlank_getLast_parenthesized (a b : List Char) : ∀ c ∈ (a ++ ('(' :: b ++ [')'])).getLast?,
    Text.isBlank c = false := by
  rw [← List.append_assoc, List.getLast?_concat]
  intro c hc
  obtain rfl := Option.some_inj.1 hc
  decide

/-- An item that begins with the words of a phrase. -/
theorem occursIn_atStart_phrase_spellings (hSecond : IsKeyword second) (v : Spelling first) (b : Space)
    (w : Spelling second) (s : List Char) :
    (atStart ++ phrase first [second]).occursIn (v.text ++ b.text ++ w.text ++ s) = true := by
  rw [occursIn, find_atStart_append, here, (takes_phrase_spellings hSecond v b w empty s).hits]
  rfl

/-! ## Primary keys -/

/-- A primary key of the table as it is written, with any text behind it. -/
structure PrimaryKeyText where
  primary : Spelling "PRIMARY"
  primaryEnd : Space
  key : Spelling "KEY"
  keyEnd : Gap
  columns : List ListedName
  nonempty : columns ≠ []
  clauses : List Char
  free : IsFree clauses

namespace PrimaryKeyText

/-- The same key without quotes. -/
def bare (k : PrimaryKeyText) : PrimaryKeyText := { k with
  columns := ListedName.bareAll k.columns
  nonempty := ListedName.bareAll_ne_nil k.nonempty }

/-- The text of a primary key. -/
def text (k : PrimaryKeyText) : List Char :=
  k.primary.text ++ k.primaryEnd.text ++ k.key.text ++
    (k.keyEnd.text ++ (('(' :: ListedName.list k.columns ++ [')']) ++ k.clauses))

variable (k : PrimaryKeyText)

theorem isPart : Sql.IsPart k.text :=
  (((k.primary.isPart (by decide)).append k.primaryEnd.toGap.isPart).append (k.key.isPart (by decide))).append
    (k.keyEnd.isPart.append ((ListedName.isPart_parenthesized k.columns).append k.free.isPart))

theorem isBlank_ends (s : List Char) : (∀ c ∈ (k.text ++ s).head?, Text.isBlank c = false) ∧
    ∀ c ∈ k.text.getLast?, Text.isBlank c = false := by
  refine ⟨?_, ?_⟩
  · rw [text, List.append_assoc, List.append_assoc, List.append_assoc]
    exact k.primary.isBlank_head (by decide) _
  · rw [text, ← List.append_assoc, ← List.append_assoc]
    exact Text.isBlank_getLast_append (isBlank_getLast_parenthesized _ _) k.free.ends

/-- The clause is read to the end of its columns. -/
theorem find_primaryKeyClause : ∃ t, primaryKeyClause.find k.text =
    some ⟨t, [(1, ListedName.list k.columns)], k.clauses⟩ := by
  have hOpen : ∀ q, (parenthesized 1 ++ q).Refuses Text.isBlank := fun q =>
    (refuses_parenthesized 1 (by decide)).append q
  have hList := takes_parenthesized 1 (ListedName.list_ne_nil k.nonempty) (ListedName.not_mem_list k.columns) empty
    k.clauses
  have hGap := k.keyEnd.takes (s := ('(' :: ListedName.list k.columns ++ [')']) ++ k.clauses) (by simp; decide)
    (hOpen empty)
  have hAll := ((takes_phrase_spellings (by decide) k.primary k.primaryEnd k.key _ _).append hGap).append hList
  have hText : k.text = k.primary.text ++ k.primaryEnd.text ++ k.key.text ++ k.keyEnd.text ++
      ('(' :: ListedName.list k.columns ++ [')']) ++ k.clauses := by simp [text]
  exact ⟨_, by rw [hText]; exact hAll.find⟩

/-- A primary key joins the columns that it names to that of the table. -/
theorem addItem_text (t : Table) : addItem t k.text =
    { t with primaryKey := t.primaryKey ++ (nameList (ListedName.list k.columns)).map String.ofList } := by
  obtain ⟨u, hFind⟩ := k.find_primaryKeyClause
  have hForeign : foreignKeyItem.occursIn k.text = false := by
    have hText : k.text = k.primary.text ++ (k.primaryEnd.text ++ (k.key.text ++ (k.keyEnd.text ++
        (('(' :: ListedName.list k.columns ++ [')']) ++ k.clauses)))) := by simp [text]
    rw [hText]
    exact occursIn_atStart_phrase_of_not_spells (by decide) (by decide) (k.primary.isWordChar (by decide))
      (k.primaryEnd.isWordChar_head _)
      (k.primary.not_spells (by decide) (by decide) (by decide))
  have hPrimary : primaryKeyItem.occursIn k.text = true :=
    occursIn_atStart_phrase_spellings (by decide) k.primary k.primaryEnd k.key _
  rw [addItem, hForeign, if_neg Bool.false_ne_true, if_pos hPrimary, readPrimaryKey, hFind]
  rfl

theorem addItem_bare (t : Table) : addItem t k.bare.text = addItem t k.text := by
  rw [addItem_text, addItem_text, show k.bare.columns = ListedName.bareAll k.columns from rfl,
    ListedName.nameList_list_bareAll k.nonempty]

theorem passesOver_createIndex (hs : EndsIndex s) (last : Option Char) :
    createIndexPhrase.PassesOver last k.text s := by
  have hPrimary := fun t => passesOver_createIndex_spelling (s := k.primaryEnd.text ++ t) (by decide) (by decide)
    k.primary (k.primaryEnd.isWordChar_head _)
  have hKey := fun t => passesOver_createIndex_spelling (by decide) (by decide) k.key
    (endsIndex_mark (c := '(') k.keyEnd (by decide) (by decide) t).word
  have hClauses := fun last => k.free.passesOver_createIndex hs last
  have hText : k.text = k.primary.text ++ (k.primaryEnd.text ++ (k.key.text ++ (k.keyEnd.text ++
      (('(' :: ListedName.list k.columns ++ [')']) ++ k.clauses)))) := by simp [text]
  rw [hText]
  exact (hPrimary _ last).append_append ((passesOver_createIndex_gap k.primaryEnd.toGap _ _).append
    ((hKey _ _).append_append ((passesOver_createIndex_gap k.keyEnd _ _).append
      ((ListedName.passesOver_createIndex k.columns _ _).append (hClauses _)))))

end PrimaryKeyText

/-! ## Foreign keys -/

/-- A foreign key of the table as it is written, with any text behind it. -/
structure ForeignKeyText extends KeyTokens where
  columns : List ListedName
  columnsNonempty : columns ≠ []
  referenced : List ListedName
  referencedNonempty : referenced ≠ []
  clauses : List Char
  free : IsFree clauses

namespace ForeignKeyText

/-- The same key without quotes. -/
def bare (k : ForeignKeyText) : ForeignKeyText := { k with
  table := k.table.bare
  columns := ListedName.bareAll k.columns
  columnsNonempty := ListedName.bareAll_ne_nil k.columnsNonempty
  referenced := ListedName.bareAll k.referenced
  referencedNonempty := ListedName.bareAll_ne_nil k.referencedNonempty }

/-- The text of a foreign key. -/
def text (k : ForeignKeyText) : List Char :=
  k.toKeyTokens.text (ListedName.list k.columns) (ListedName.list k.referenced) ++ k.clauses

variable (k : ForeignKeyText)

theorem text_eq : k.text = k.foreign.text ++ k.foreignEnd.text ++ k.key.text ++ (k.keyEnd.text ++
    (('(' :: ListedName.list k.columns ++ [')']) ++ (k.columnsEnd.text ++ (k.references.text ++
      (k.referencesEnd.text ++ (k.table.text ++ (k.tableEnd.text ++
        (('(' :: ListedName.list k.referenced ++ [')']) ++ k.clauses)))))))) := by
  simp [text, KeyTokens.text]

theorem isPart : Sql.IsPart k.text := by
  rw [text_eq]
  exact (((k.foreign.isPart (by decide)).append k.foreignEnd.toGap.isPart).append (k.key.isPart (by decide))).append
    (k.keyEnd.isPart.append ((ListedName.isPart_parenthesized k.columns).append (k.columnsEnd.isPart.append
      ((k.references.isPart (by decide)).append (k.referencesEnd.toGap.isPart.append (k.table.isPart.append
        (k.tableEnd.isPart.append ((ListedName.isPart_parenthesized k.referenced).append k.free.isPart))))))))

theorem isBlank_ends (s : List Char) : (∀ c ∈ (k.text ++ s).head?, Text.isBlank c = false) ∧
    ∀ c ∈ k.text.getLast?, Text.isBlank c = false := by
  refine ⟨?_, ?_⟩
  · rw [text_eq, List.append_assoc, List.append_assoc, List.append_assoc]
    exact k.foreign.isBlank_head (by decide) _
  · exact Text.isBlank_getLast_append (isBlank_getLast_parenthesized _ _) k.free.ends

/-- A foreign key joins a pair of columns after the other to those of the table. -/
theorem addItem_text (t : Table) : addItem t k.text = { t with
    foreignKeys := t.foreignKeys ++ List.zipWith (fun column referenced => {
        column := String.ofList column
        referencesTable := String.ofList k.table.name
        referencesColumn := String.ofList referenced
        onDelete := actionOn "DELETE" k.clauses
        onUpdate := actionOn "UPDATE" k.clauses })
      (nameList (ListedName.list k.columns)) (nameList (ListedName.list k.referenced)) } := by
  have hForeign : foreignKeyItem.occursIn k.text = true := by
    rw [text_eq]
    exact occursIn_atStart_phrase_spellings (by decide) k.foreign k.foreignEnd k.key _
  rw [addItem, if_pos hForeign, readForeignKeys, text, k.toKeyTokens.find (ListedName.list_ne_nil k.columnsNonempty)
    (ListedName.not_mem_list _) (ListedName.list_ne_nil k.referencedNonempty) (ListedName.not_mem_list _)]
  rfl

theorem addItem_bare (t : Table) : addItem t k.bare.text = addItem t k.text := by
  rw [addItem_text, addItem_text, show k.bare.columns = ListedName.bareAll k.columns from rfl,
    show k.bare.referenced = ListedName.bareAll k.referenced from rfl,
    ListedName.nameList_list_bareAll k.columnsNonempty, ListedName.nameList_list_bareAll k.referencedNonempty]
  rfl

theorem passesOver_createIndex (hs : EndsIndex s) (last : Option Char) :
    createIndexPhrase.PassesOver last k.text s := by
  have hForeign := fun t => passesOver_createIndex_spelling (s := k.foreignEnd.text ++ t) (by decide) (by decide)
    k.foreign (k.foreignEnd.isWordChar_head _)
  have hKey := fun t => passesOver_createIndex_spelling (by decide) (by decide) k.key
    (endsIndex_mark (c := '(') k.keyEnd (by decide) (by decide) t).word
  have hReferences := fun t => passesOver_createIndex_spelling (s := k.referencesEnd.text ++ t) (by decide) (by decide)
    k.references (k.referencesEnd.isWordChar_head _)
  have hTable := fun t => k.table.passesOver_createIndex (endsIndex_mark (c := '(') k.tableEnd (by decide) (by decide) t)
  have hClauses := fun last => k.free.passesOver_createIndex hs last
  have hReferenced : ∀ last, createIndexPhrase.PassesOver last (k.references.text ++ (k.referencesEnd.text ++
      (k.table.text ++ (k.tableEnd.text ++ (('(' :: ListedName.list k.referenced ++ [')']) ++ k.clauses))))) s :=
    fun last => (hReferences _ last).append_append ((passesOver_createIndex_gap k.referencesEnd.toGap _ _).append
      ((hTable _ _).append_append ((passesOver_createIndex_gap k.tableEnd _ _).append
        ((ListedName.passesOver_createIndex k.referenced _ _).append (hClauses _)))))
  rw [text_eq, List.append_assoc, List.append_assoc]
  exact (hForeign _ last).append_append ((passesOver_createIndex_gap k.foreignEnd.toGap _ _).append
    ((hKey _ _).append_append ((passesOver_createIndex_gap k.keyEnd _ _).append
      ((ListedName.passesOver_createIndex k.columns _ _).append ((passesOver_createIndex_gap k.columnsEnd _ _).append
        (hReferenced _))))))

end ForeignKeyText

/-! ## Keys with a name of their own -/

/-- The name of a constraint, before what it constrains. -/
structure Naming where
  constraint : Spelling "CONSTRAINT"
  constraintEnd : Space
  name : WrittenName
  nameEnd : Space

namespace Naming

/-- The same name without quotes. -/
def bare (n : Naming) : Naming := { n with name := n.name.bare }

/-- The text of a name, if there is one. -/
def textOf : Option Naming → List Char
  | none => []
  | some n => n.constraint.text ++ (n.constraintEnd.text ++ (n.name.text ++ n.nameEnd.text))

theorem isPart_textOf (o : Option Naming) : Sql.IsPart (textOf o) := by
  cases o with
  | none => exact Sql.isPart_of_forall (by simp [textOf])
  | some n =>
    exact (n.constraint.isPart (by decide)).append (n.constraintEnd.toGap.isPart.append
      (n.name.isPart.append n.nameEnd.toGap.isPart))

theorem isBlank_head_textOf (o : Option Naming) (hs : ∀ c ∈ s.head?, Text.isBlank c = false) :
    ∀ c ∈ (textOf o ++ s).head?, Text.isBlank c = false := by
  cases o with
  | none => exact hs
  | some n =>
    rw [textOf, List.append_assoc]
    exact n.constraint.isBlank_head (by decide) _

/-- What has a name is no key and no column. -/
theorem addItem_textOf (n : Naming) (t : Table) (s : List Char) : addItem t (textOf (some n) ++ s) = t := by
  have hWord := n.constraint.isWordChar (by decide)
  have hBlank := n.constraintEnd.isBlank_head (n.name.text ++ n.nameEnd.text ++ s)
  have hText : textOf (some n) ++ s =
      n.constraint.text ++ (n.constraintEnd.text ++ (n.name.text ++ n.nameEnd.text ++ s)) := by simp [textOf]
  have hKey : ∀ word ∈ ["FOREIGN", "PRIMARY"],
      (atStart ++ phrase word ["KEY"]).occursIn (textOf (some n) ++ s) = false := by
    intro word hKey
    have hOther : ∀ word ∈ ["FOREIGN", "PRIMARY"], IsKeyword word ∧
        "CONSTRAINT".toList.map Text.lowerAscii ≠ word.toList.map Text.lowerAscii := by decide
    obtain ⟨hWordKey, hNe⟩ := hOther word hKey
    rw [hText]
    exact occursIn_atStart_phrase_of_not_spells (List.all_eq_true.2 hWordKey.2) hWordKey.1 hWord
      (fun c hc => Text.isWordChar_of_isBlank (hBlank c hc)) (n.constraint.not_spells (by decide) hWordKey hNe)
  have hForeign : foreignKeyItem.occursIn (textOf (some n) ++ s) = false := hKey "FOREIGN" (by decide)
  have hPrimary : primaryKeyItem.occursIn (textOf (some n) ++ s) = false := hKey "PRIMARY" (by decide)
  have hConstraint : constraintItem.occursIn (textOf (some n) ++ s) = true := by
    have hEdge : ∀ u, u = n.constraintEnd.text ++ (n.name.text ++ n.nameEnd.text ++ s) →
        wordEdge (lastOf none n.constraint.text) u = true := by
      rintro u rfl
      obtain ⟨v, d, hLast⟩ := (List.eq_nil_or_concat' n.constraint.text).resolve_left (n.constraint.ne_nil (by decide))
      obtain ⟨e, w, hNext⟩ := List.exists_cons_of_ne_nil n.constraintEnd.nonempty
      have hd : Text.isWordChar d = true := hWord d (by rw [hLast]; simp)
      have he : Text.isWordChar e = false := Text.isWordChar_of_isBlank (hBlank e (by rw [hNext]; rfl))
      simp [hLast, hNext, lastOf, wordEdge, wordEdge.isWord, hd, he]
    have hHits := n.constraint.takes atWordEdge (n.constraintEnd.text ++ (n.name.text ++ n.nameEnd.text ++ s)) none
    rw [hits, if_pos (hEdge _ rfl), List.map_singleton] at hHits
    rw [hText, occursIn, find, constraintItem, findFrom_append_assoc, ← find, find_atStart_append, here,
      hits_either_append, hits_either_append, hHits]
    simp
  rw [addItem, hForeign, if_neg Bool.false_ne_true, hPrimary, if_neg Bool.false_ne_true, if_pos hConstraint]

theorem passesOver_createIndex (o : Option Naming) (hBlank : ∀ d ∈ s.head?, Text.isBlank d = false)
    (hUnique : ∀ last, (keyword "UNIQUE".toList).hits last s = [])
    (hIndex : ∀ last, (keyword "INDEX".toList).hits last s = []) (last : Option Char) :
    createIndexPhrase.PassesOver last (textOf o) s := by
  cases o with
  | none => trivial
  | some n =>
    have hName : ∀ last, createIndexPhrase.PassesOver last n.name.text (n.nameEnd.text ++ s) :=
      n.name.passesOver_createIndex (endsIndex_gap n.nameEnd.toGap (n.nameEnd.isWordChar_head s) hBlank hUnique hIndex)
    refine PassesOver.append ?_ ((passesOver_createIndex_gap n.constraintEnd.toGap _ _).append
      ((hName _).append (passesOver_createIndex_gap n.nameEnd.toGap _ _)))
    refine passesOver_createIndex_spelling (by decide) (by decide) n.constraint ?_ last
    rw [List.append_assoc]
    exact n.constraintEnd.isWordChar_head _

end Naming

/-! ## Items -/

/-- An item of a table as it is written. -/
inductive TableItem where
  | column (c : ColumnText)
  | primaryKey (naming : Option Naming) (k : PrimaryKeyText)
  | foreignKey (naming : Option Naming) (k : ForeignKeyText)
  /-- Any other item, taken as it is. -/
  | other (s : List Char) (free : IsFree s) (begins : ∀ c ∈ s.head?, Text.isBlank c = false) (nonempty : s ≠ [])

namespace TableItem

/-- The same item without quotes. -/
def bare : TableItem → TableItem
  | column c => column c.bare
  | primaryKey n k => primaryKey (n.map Naming.bare) k.bare
  | foreignKey n k => foreignKey (n.map Naming.bare) k.bare
  | other s free begins nonempty => other s free begins nonempty

/-- The text of an item. -/
def text : TableItem → List Char
  | column c => c.text
  | primaryKey n k => Naming.textOf n ++ k.text
  | foreignKey n k => Naming.textOf n ++ k.text
  | other s _ _ _ => s

variable (i : TableItem)

theorem isPart : Sql.IsPart i.text := by
  cases i with
  | column c => exact c.isPart
  | primaryKey n k => exact (Naming.isPart_textOf n).append k.isPart
  | foreignKey n k => exact (Naming.isPart_textOf n).append k.isPart
  | other s free => exact free.isPart

theorem isBlank_ends : (∀ c ∈ i.text.head?, Text.isBlank c = false) ∧ ∀ c ∈ i.text.getLast?, Text.isBlank c = false := by
  cases i with
  | column c => exact ⟨c.name.isSolid.head _, c.isBlank_getLast_text⟩
  | primaryKey n k =>
    obtain ⟨hHead, hLast⟩ := k.isBlank_ends []
    rw [List.append_nil] at hHead
    refine ⟨Naming.isBlank_head_textOf n hHead, ?_⟩
    rw [text, List.getLast?_append_of_ne_nil _ (by simp [PrimaryKeyText.text])]
    exact hLast
  | foreignKey n k =>
    obtain ⟨hHead, hLast⟩ := k.isBlank_ends []
    rw [List.append_nil] at hHead
    refine ⟨Naming.isBlank_head_textOf n hHead, ?_⟩
    rw [text, List.getLast?_append_of_ne_nil _ (by simp [ForeignKeyText.text_eq])]
    exact hLast
  | other s free begins => exact ⟨begins, free.ends⟩

theorem text_ne_nil : i.text ≠ [] := by
  cases i with
  | column c => simp [text, ColumnText.text, c.typeNonempty]
  | primaryKey n k => simp [text, PrimaryKeyText.text]
  | foreignKey n k => simp [text, ForeignKeyText.text_eq]
  | other s free begins nonempty => exact nonempty

/-- An item adds the same to its table without the quotes. -/
theorem addItem_bare (t : Table) : addItem t i.bare.text = addItem t i.text := by
  cases i with
  | column c => exact c.addItem_bare t
  | primaryKey n k =>
    cases n with
    | none => exact k.addItem_bare t
    | some n => exact (Naming.addItem_textOf n.bare t _).trans (Naming.addItem_textOf n t _).symm
  | foreignKey n k =>
    cases n with
    | none => exact k.addItem_bare t
    | some n => exact (Naming.addItem_textOf n.bare t _).trans (Naming.addItem_textOf n t _).symm
  | other => rfl

theorem passesOver_createIndex (hs : EndsIndex s) (last : Option Char) :
    createIndexPhrase.PassesOver last i.text s := by
  have hNone : ∀ {word other : String}, IsKeyword word → IsKeyword other →
      word.toList.head?.map Text.lowerAscii ≠ other.toList.head?.map Text.lowerAscii → ∀ (w : Spelling word) t last,
      (keyword other.toList).hits last (w.text ++ t) = [] := fun hWord hOther hLetter w t last =>
    w.hits_keyword_eq_nil hWord hOther hLetter last t
  cases i with
  | column c => exact c.passesOver_createIndex hs last
  | primaryKey n k =>
    refine (Naming.passesOver_createIndex n (k.isBlank_ends s).1 ?_ ?_ last).append (k.passesOver_createIndex hs _)
    · rw [PrimaryKeyText.text, List.append_assoc, List.append_assoc, List.append_assoc]
      exact hNone (by decide) (by decide) (by decide) k.primary _
    · rw [PrimaryKeyText.text, List.append_assoc, List.append_assoc, List.append_assoc]
      exact hNone (by decide) (by decide) (by decide) k.primary _
  | foreignKey n k =>
    refine (Naming.passesOver_createIndex n (k.isBlank_ends s).1 ?_ ?_ last).append (k.passesOver_createIndex hs _)
    · rw [ForeignKeyText.text_eq, List.append_assoc, List.append_assoc, List.append_assoc]
      exact hNone (by decide) (by decide) (by decide) k.foreign _
    · rw [ForeignKeyText.text_eq, List.append_assoc, List.append_assoc, List.append_assoc]
      exact hNone (by decide) (by decide) (by decide) k.foreign _
  | other s free => exact free.passesOver_createIndex hs last

end TableItem

end SqlSurvey.Ddl
