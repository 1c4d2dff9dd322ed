import SqlSurvey.Proofs.Ddl.TableText

/-!
# Indexes and the quotes of their names

A statement for an index is written as the words that create it, its name, its table and its columns, and perhaps
options behind them. The name of the index and of the table are read without their quotes, but the columns are kept
with them.
-/

namespace SqlSurvey.Ddl

open Pattern

variable {q : Pattern}

/-! ## UNIQUE -/

/-- UNIQUE and the blanks behind it. -/
structure UniqueMark where
  word : Spelling "UNIQUE"
  wordEnd : Space

namespace UniqueMark

/-- The text of the mark, if there is one. -/
def textOf : Option UniqueMark → List Char
  | none => []
  | some u => u.word.text ++ u.wordEnd.text

/-- The part that is kept for it. -/
def partOf (o : Option UniqueMark) : List (Nat × List Char) := (o.map fun u => (1, u.word.text ++ u.wordEnd.text)).toList

theorem isPart_textOf (o : Option UniqueMark) : Sql.IsPart (textOf o) := by
  cases o with
  | none => exact Sql.isPart_of_forall (by simp [textOf])
  | some u => exact (u.word.isPart (by decide)).append u.wordEnd.toGap.isPart

variable (o : Option UniqueMark) (index : Spelling "INDEX")

theorem isBlank_head_textOf (s : List Char) : ∀ d ∈ (textOf o ++ (index.text ++ s)).head?, Text.isBlank d = false := by
  cases o with
  | none => exact index.isBlank_head (by decide) s
  | some u =>
    rw [textOf, List.append_assoc]
    exact u.word.isBlank_head (by decide) _

/-- Before INDEX, the mark is taken where it stands. -/
theorem takes (hBlank : q.Refuses Text.isBlank)
    (hNone : ∀ (w : Spelling "UNIQUE") last t, q.hits last (w.text ++ t) = []) (s : List Char) :
    (maybe (group 1 (keyword "UNIQUE".toList ++ blanks))).Takes q (textOf o) (partOf o) (index.text ++ s) := by
  cases o with
  | none =>
    refine takes_maybe_nil fun last => hits_append_eq_nil ?_
    rw [hits_group, hits_append_eq_nil (index.hits_keyword_eq_nil (by decide) (by decide) (by decide) last s)]
    rfl
  | some u =>
    have hMark : (group 1 (keyword "UNIQUE".toList ++ blanks)).Takes q (u.word.text ++ u.wordEnd.text)
        [(1, u.word.text ++ u.wordEnd.text)] (index.text ++ s) := by
      intro last
      obtain ⟨ks, hks, hRest⟩ := reverse_runHits u.wordEnd.nonempty u.wordEnd.blank (index.isBlank_head (by decide) s)
      have hWord := u.word.takes blanks (u.wordEnd.text ++ (index.text ++ s)) last
      rw [blanks, hits, hks, ← List.append_assoc] at hWord
      have hGroup := hits_group 1 (keyword "UNIQUE".toList ++ blanks) last
        (u.word.text ++ u.wordEnd.text ++ (index.text ++ s))
      rw [blanks, hWord, List.map_cons, List.map_cons] at hGroup
      -- the pattern goes on behind the longest run of blanks only
      refine hits_append_of_cons hGroup fun k hk => ?_
      obtain ⟨l, hl, rfl⟩ := List.mem_map.1 hk
      obtain ⟨m, hm, rfl⟩ := List.mem_map.1 hl
      obtain ⟨c, r, hc, hText⟩ := hRest m hm
      show q.hits _ m.rest = []
      rw [hText]
      exact hBlank _ c r hc
    refine hMark.maybe fun last => ?_
    rw [List.append_assoc]
    exact hNone u.word last _

end UniqueMark

/-! ## Statements for indexes -/

/-- CREATE and TABLE with blanks between. -/
def createTablePhrase : Pattern := keyword "CREATE".toList ++ (blanks ++ keyword "TABLE".toList)

theorem passesOver_createTablePhrase {a b : List Char} :
    createTableShape.PassesOver last a b ↔ createTablePhrase.PassesOver last a b :=
  passesOver_append_assoc (keyword "TABLE".toList)

/-- What comes after the name of an index: ON, the table and the columns. -/
def afterIndexName : Pattern :=
  blanks ++ (keyword "ON".toList ++ (blanks ++ (name 3 ++ (gap ++ parenthesized 4))))

/-- What comes after INDEX and blanks. -/
def afterIndex : Pattern := ifNotExists ++ (name 2 ++ afterIndexName)

theorem find_createIndexClause_eq (s : List Char) : createIndexClause.find s =
    (keyword "CREATE".toList ++ (blanks ++ (maybe (group 1 (keyword "UNIQUE".toList ++ blanks)) ++
      (keyword "INDEX".toList ++ (blanks ++ afterIndex))))).find s := by
  rw [find, createIndexClause, findFrom_append_assoc, findFrom_append_assoc, findFrom_append_assoc,
    findFrom_append_assoc, findFrom_append_assoc, findFrom_append_assoc, findFrom_append_assoc, findFrom_append_assoc,
    findFrom_append_assoc, findFrom_append_assoc, findFrom_append_assoc]
  rfl

/-- A statement for an index as it is written, with any text behind its columns in which no table is created. -/
structure IndexText where
  create : Spelling "CREATE"
  createEnd : Space
  unique : Option UniqueMark
  index : Spelling "INDEX"
  indexEnd : Space
  condition : Option Condition
  name : WrittenName
  nameEnd : Space
  on : Spelling "ON"
  onEnd : Space
  table : WrittenName
  tableEnd : Gap
  columns : List ListedName
  nonempty : columns ≠ []
  options : List Char
  isPartOptions : Sql.IsPart options
  ends : ∀ c ∈ options.getLast?, Text.isBlank c = false
  noTable : createTableShape.occursIn options = false

namespace IndexText

/-- The same statement without quotes. -/
def bare (c : IndexText) : IndexText := { c with
  name := c.name.bare
  table := c.table.bare
  columns := ListedName.bareAll c.columns
  nonempty := ListedName.bareAll_ne_nil c.nonempty }

/-- The text of the table and the columns. -/
def target (c : IndexText) : List Char :=
  c.nameEnd.text ++ (c.on.text ++ (c.onEnd.text ++ (c.table.text ++ (c.tableEnd.text ++
    ('(' :: ListedName.list c.columns ++ [')'])))))

/-- The text of a statement. -/
def text (c : IndexText) : List Char :=
  c.create.text ++ (c.createEnd.text ++ (UniqueMark.textOf c.unique ++ (c.index.text ++ (c.indexEnd.text ++
    (Condition.textOf c.condition ++ (c.name.text ++ (c.target ++ c.options)))))))

/-- The index that is created, with its columns as they are written. -/
def created (c : IndexText) : Index where
  name := String.ofList c.name.name
  columns := c.columns.map fun n => String.ofList n.toWrittenName.text
  isUnique := c.unique.isSome

variable (c : IndexText)

theorem isPart_target : Sql.IsPart c.target :=
  c.nameEnd.toGap.isPart.append ((c.on.isPart (by decide)).append (c.onEnd.toGap.isPart.append (c.table.isPart.append
    (c.tableEnd.isPart.append (ListedName.isPart_parenthesized c.columns)))))

theorem isInner : Sql.IsInner c.text :=
  ((c.create.isPart (by decide)).append (c.createEnd.toGap.isPart.append ((UniqueMark.isPart_textOf c.unique).append
    ((c.index.isPart (by decide)).append (c.indexEnd.toGap.isPart.append ((Condition.isPart_textOf c.condition).append
      (c.name.isPart.append (c.isPart_target.append c.isPartOptions)))))))).toIsInner

theorem text_ne_nil : c.text ≠ [] := by simp [text, target]

theorem trim_text : Text.trim c.text = c.text := by
  have hText : c.text = (c.create.text ++ (c.createEnd.text ++ (UniqueMark.textOf c.unique ++ (c.index.text ++
      (c.indexEnd.text ++ (Condition.textOf c.condition ++ (c.name.text ++ (c.nameEnd.text ++ (c.on.text ++
        (c.onEnd.text ++ (c.table.text ++ c.tableEnd.text)))))))))) ++ ('(' :: ListedName.list c.columns ++ [')'])) ++
          c.options := by simp [text, target]
  refine Text.trim_eq_self (c.create.isBlank_head (by decide) _) ?_
  rw [hText]
  exact Text.isBlank_getLast_append (isBlank_getLast_parenthesized _ _) c.ends

theorem isWordChar_head_target (s : List Char) : ∀ d ∈ (c.target ++ s).head?, Text.isWordChar d = false ∧
    closesName d = false := fun d hd => by
  rw [target, List.append_assoc] at hd
  have hBlank := c.nameEnd.isBlank_head _ d hd
  exact ⟨Text.isWordChar_of_isBlank hBlank, closesName_of_isBlank hBlank⟩

/-- No keyword but ON stands where the table does. -/
theorem hits_blanks_target {word : String} (h : IsKeyword word)
    (hLetter : "ON".toList.head?.map Text.lowerAscii ≠ word.toList.head?.map Text.lowerAscii) (s : List Char)
    (last : Option Char) : (blanks ++ keyword word.toList).hits last (c.target ++ s) = [] := by
  rw [target, List.append_assoc]
  refine hits_blanks_append_gap c.nameEnd.toGap h.refuses_blank ?_ (fun last => ?_) last
  · rw [List.append_assoc]
    exact c.on.isBlank_head (by decide) _
  · rw [List.append_assoc]
    exact c.on.hits_keyword_eq_nil (by decide) h hLetter last _

/-- Table and columns are taken to the end of the list. -/
theorem takes_target : afterIndexName.Takes empty c.target [(3, c.table.name), (4, ListedName.list c.columns)]
    c.options := by
  have hParen : ∀ {A : Char → Bool}, A '(' = false → (parenthesized 4 ++ empty).Refuses A := fun hA =>
    (refuses_parenthesized 4 hA).append empty
  obtain ⟨hWord, hQuote⟩ := refuses_gap_append (p := parenthesized 4) (refuses_parenthesized 4 (by decide))
    (refuses_parenthesized 4 (by decide))
  have hList := takes_parenthesized 4 (ListedName.list_ne_nil c.nonempty) (ListedName.not_mem_list c.columns) empty
    c.options
  have hGap := (c.tableEnd.takes (by simp; decide) (hParen (by decide))).append hList
  have hTable := (c.table.takes 3 (hWord.append empty) (hQuote.append empty) (by
    rw [List.append_assoc]
    exact head?_gap_append c.tableEnd (by decide) _)).append hGap
  have hOnEnd := (c.onEnd.takes (q := (Ddl.name 3 ++ (gap ++ parenthesized 4)) ++ empty) (by
    rw [List.append_assoc]
    exact c.table.isSolid.head _) (((refuses_name 3).append _).append _)).append hTable
  have hOn := (c.on.takes _ _).append hOnEnd
  exact (c.nameEnd.takes (by
    rw [List.append_assoc]
    exact c.on.isBlank_head (by decide) _) (((by decide : IsKeyword "ON").refuses_blank.append _).append _)).append hOn

/-- The name of an index is taken, with the condition before it. -/
theorem takes_afterIndex : afterIndex.Takes empty (Condition.textOf c.condition ++ (c.name.text ++ c.target))
    [(2, c.name.name), (3, c.table.name), (4, ListedName.list c.columns)] c.options := by
  have hQuote : afterIndexName.Refuses closesName := (refuses_many fun d hd =>
    isBlank_of_isNameQuote (by rw [nameList.isNameQuote, hd, Bool.or_true])).append _
  have hWord : afterIndexName.Refuses Text.isWordChar := refuses_blanks.append _
  have hName := (c.name.takes 2 (hWord.append empty) (hQuote.append empty) (c.isWordChar_head_target c.options)).append
    c.takes_target
  have hIf : ifNotExists.Takes ((Ddl.name 2 ++ afterIndexName) ++ empty) (Condition.textOf c.condition) []
      (c.name.text ++ (c.target ++ c.options)) := by
    refine Condition.takes c.condition c.name (fun d hd => (c.isWordChar_head_target _ d hd).1)
      (c.hits_blanks_target (by decide) (by decide) _) (((refuses_name 2).append _).append _) fun v b w last t => ?_
    refine hits_append_eq_nil (hits_name_spelling (by decide) 2 v b hWord (fun last => ?_) last)
    rw [afterIndexName, b.takes (w.isBlank_head (by decide) t) ((by decide : IsKeyword "ON").refuses_blank.append _),
      hits_append_eq_nil (w.hits_keyword_eq_nil (by decide) (by decide) (by decide) _ t), List.map_nil]
  rw [← List.append_assoc] at hIf
  exact hIf.append hName

/-- The clause is read to the end of its columns. -/
theorem find_createIndexClause : ∃ t, createIndexClause.find c.text = some ⟨t, UniqueMark.partOf c.unique ++
    [(2, c.name.name), (3, c.table.name), (4, ListedName.list c.columns)], c.options⟩ := by
  have hIndexKeyword : IsKeyword "INDEX" := by decide
  have hAfterBlank : afterIndex.Refuses Text.isBlank := Condition.refuses_ifNotExists ((refuses_name 2).append _)
  have hIndexEnd := (c.indexEnd.takes (q := afterIndex ++ empty) (by
    rw [List.append_assoc]
    refine Condition.isBlank_head_textOf c.condition ?_
    rw [List.append_assoc]
    exact c.name.isSolid.head _) (hAfterBlank.append _)).append c.takes_afterIndex
  have hIndex := (c.index.takes _ _).append hIndexEnd
  have hUnique := UniqueMark.takes (q := (keyword "INDEX".toList ++ (blanks ++ afterIndex)) ++ empty) c.unique c.index
    ((hIndexKeyword.refuses_blank.append _).append _)
    (fun w last t => hits_append_eq_nil (hits_append_eq_nil
      (w.hits_keyword_eq_nil (by decide) (by decide) (by decide) last t)))
    (c.indexEnd.text ++ (Condition.textOf c.condition ++ (c.name.text ++ c.target)) ++ c.options)
  rw [← List.append_assoc c.index.text] at hUnique
  have hMark := hUnique.append hIndex
  have hCreateEnd := (c.createEnd.takes (q := (maybe (group 1 (keyword "UNIQUE".toList ++ blanks)) ++
      (keyword "INDEX".toList ++ (blanks ++ afterIndex))) ++ empty) (by
    rw [List.append_assoc, List.append_assoc]
    exact UniqueMark.isBlank_head_textOf c.unique c.index _) (by
    refine Refuses.append (Refuses.maybe_append ?_ (hIndexKeyword.refuses_blank.append _)) empty
    exact refuses_group ((by decide : IsKeyword "UNIQUE").refuses_blank.append _) 1)).append hMark
  have hAll := (c.create.takes _ _).append hCreateEnd
  have hText : c.text = c.create.text ++ (c.createEnd.text ++ (UniqueMark.textOf c.unique ++ (c.index.text ++
      (c.indexEnd.text ++ (Condition.textOf c.condition ++ (c.name.text ++ c.target)))))) ++ c.options := by
    simp [text]
  rw [find_createIndexClause_eq, hText, hAll.find]
  exact ⟨_, rfl⟩

theorem readIndex?_text : readIndex? c.text = some (String.ofList c.table.name, c.created) := by
  obtain ⟨t, hFind⟩ := c.find_createIndexClause
  have hColumns : ((ListedName.list c.columns).splitOnP fun d => d == ',').map (fun t => String.ofList (Text.trim t)) =
      c.columns.map fun n => String.ofList n.toWrittenName.text := by
    rw [ListedName.splitOnP_list c.nonempty, List.map_map]
    exact List.map_congr_left fun n _ => congrArg String.ofList n.trim_text
  rw [readIndex?, hFind, created]
  cases hUnique : c.unique <;> simp [UniqueMark.partOf, Hit.groupText, Hit.group?, hColumns]

/-- The table and the columns are passed over in a search for CREATE TABLE. -/
theorem passesOver_target (s : List Char) (last : Option Char) :
    createTablePhrase.PassesOver last c.target s := by
  have hCreate : IsKeyword "CREATE" := by decide
  have hTableWord : IsKeyword "TABLE" := by decide
  have hRefuses : (keyword "TABLE".toList).Refuses fun d => !Text.isWordChar d := hTableWord.refuses fun d hd => by
    simpa using hd
  have hGap : ∀ (g : Gap) last t, createTablePhrase.PassesOver last g.text t := fun g =>
    g.passesOver (refuses_keyword_blanks hCreate _)
  have hOn := fun t => passesOver_spelling (s := c.onEnd.text ++ t) (by decide) hCreate (by decide) c.on
    (c.onEnd.isWordChar_head t) (keyword "TABLE".toList)
  have hTable := fun t => c.table.passesOver (q := keyword "TABLE".toList) (s := c.tableEnd.text ++ '(' :: t) hCreate
    (c.tableEnd.isWordChar_head (by simp; decide))
    (hits_blanks_append_gap c.tableEnd hTableWord.refuses_blank (by simp; decide)
      (hits_keyword_eq_nil_of_head hTableWord (by simp; decide)))
  exact (hGap c.nameEnd.toGap _ _).append ((hOn _ _).append_append ((hGap c.onEnd.toGap _ _).append
    ((hTable _ _).append_append ((hGap c.tableEnd _ _).append
      (ListedName.passesOver_parenthesized hCreate hRefuses c.columns s _)))))

/-- No table is created in a statement for an index. -/
theorem createsTable_text : createsTable c.text = false := by
  have hCreateWord : IsKeyword "CREATE" := by decide
  have hGap : ∀ (g : Gap) last t, createTablePhrase.PassesOver last g.text t := fun g =>
    g.passesOver (refuses_keyword_blanks hCreateWord _)
  -- UNIQUE or INDEX comes where TABLE would have to
  have hCreate : ∀ s, createTablePhrase.PassesOver none c.create.text
      (c.createEnd.text ++ (UniqueMark.textOf c.unique ++ (c.index.text ++ s))) := by
    intro s
    refine passesOver_word_of_hits_eq_nil hCreateWord (c.create.isWordChar (by decide)) (c.createEnd.isWordChar_head _)
      (hits_blanks_append_gap c.createEnd.toGap (by decide : IsKeyword "TABLE").refuses_blank
        (UniqueMark.isBlank_head_textOf c.unique c.index s) fun last => ?_) none
    cases c.unique with
    | none => exact c.index.hits_keyword_eq_nil (by decide) (by decide) (by decide) last s
    | some u =>
      rw [UniqueMark.textOf, List.append_assoc]
      exact u.word.hits_keyword_eq_nil (by decide) (by decide) (by decide) last _
  have hUnique : ∀ last s, createTablePhrase.PassesOver last
      (UniqueMark.textOf c.unique) s := by
    intro last s
    cases c.unique with
    | none => trivial
    | some u =>
      exact (passesOver_spelling (by decide) hCreateWord (by decide) u.word (u.wordEnd.isWordChar_head s) _ last).append
        (hGap u.wordEnd.toGap _ s)
  have hIndex := fun s => passesOver_spelling (s := c.indexEnd.text ++ s) (by decide) hCreateWord (by decide) c.index
    (c.indexEnd.isWordChar_head s) (keyword "TABLE".toList)
  have hCondition := fun last s => Condition.passesOver_spellings hCreateWord (by decide) (keyword "TABLE".toList)
    c.condition last s
  have hName := fun s => c.name.passesOver (q := keyword "TABLE".toList) (s := c.target ++ s) hCreateWord
    (fun d hd => (c.isWordChar_head_target s d hd).1) (c.hits_blanks_target (by decide) (by decide) s)
  have hAll : createTablePhrase.PassesOver none
      (c.create.text ++ (c.createEnd.text ++ (UniqueMark.textOf c.unique ++ (c.index.text ++ (c.indexEnd.text ++
        (Condition.textOf c.condition ++ (c.name.text ++ c.target))))))) c.options := by
    refine PassesOver.append_append ?_ ((hGap c.createEnd.toGap _ _).append ((hUnique _ _).append
      ((hIndex _ _).append_append ((hGap c.indexEnd.toGap _ _).append ((hCondition _ _).append
        ((hName _ _).append (c.passesOver_target _ _)))))))
    rw [List.append_assoc, List.append_assoc]
    exact hCreate _
  have hText : c.text = (c.create.text ++ (c.createEnd.text ++ (UniqueMark.textOf c.unique ++ (c.index.text ++
      (c.indexEnd.text ++ (Condition.textOf c.condition ++ (c.name.text ++ c.target))))))) ++ c.options := by
    simp [text]
  have hForward : createTableShape.Forward := ⟨⟨forward_keyword _, trivial⟩, forward_keyword _⟩
  rw [createsTable, occursIn, find, hText, findFrom_append (passesOver_createTablePhrase.2 hAll),
    hForward.findFrom_eq _ none]
  exact c.noTable

/-- A statement for an index creates it with its columns as they are written. -/
theorem ofStatement_text : SchemaEvent.ofStatement c.text = [.index (String.ofList c.table.name) c.created] := by
  rw [SchemaEvent.ofStatement_eq, readTable?_eq_none c.createsTable_text, readIndex?_text]
  rfl

end IndexText

end SqlSurvey.Ddl
