import SqlSurvey.Ddl.Index
import SqlSurvey.Proofs.Ddl.Key

/-!
# Indexes that are read back

A statement for an index is read to its end, whatever words the index, the table and the columns are called,
and it is not taken for a statement that creates a table.
-/

namespace SqlSurvey.Ddl

open Pattern

variable {n t l : List Char}

/-- The word for a unique index, if there is one. -/
def uniqueWord (unique : Bool) : List Char := if unique then "UNIQUE ".toList else []

/-- The part that is kept for it. -/
def uniquePart (unique : Bool) : List (Nat × List Char) := if unique then [(1, "UNIQUE ".toList)] else []

/-- No blank comes after the first space of the statement. -/
theorem head?_uniqueWord (unique : Bool) (s : List Char) :
    ∀ c ∈ (uniqueWord unique ++ ("INDEX".toList ++ s)).head?, Text.isBlank c = false := by
  cases unique with
  | true => simp [uniqueWord]; decide
  | false => simp [uniqueWord]; decide

/-- The word for a unique index is taken where it stands. -/
theorem takes_unique (unique : Bool) (q : Pattern) (s : List Char) :
    (maybe (group 1 (keyword "UNIQUE".toList ++ blanks))).Takes (keyword "INDEX".toList ++ q)
      (uniqueWord unique) (uniquePart unique) ("INDEX".toList ++ s) := by
  cases unique with
  | true =>
    have hWord : (keyword "UNIQUE".toList).Takes (blanks ++ empty) "UNIQUE".toList []
        ([' '] ++ ("INDEX".toList ++ s)) := takes_keyword (by decide) _ _
    have hSpace : blanks.Takes empty [' '] [] ("INDEX".toList ++ s) := takes_space (by simp; decide) _
    -- without the word, INDEX would have to come first
    exact ((hWord.append hSpace).group 1 _).maybe fun _ => hits_append_eq_nil (hits_append_eq_nil rfl)
  | false => exact takes_maybe_nil fun _ => hits_append_eq_nil rfl

/-- The clause for an index is read to the end of its columns. -/
theorem find_createIndexClause (hn : Text.isIdentifier n = true) (ht : Text.isIdentifier t = true) (hl : l ≠ [])
    (hClose : ')' ∉ l) (unique : Bool) :
    createIndexClause.find ("CREATE ".toList ++ uniqueWord unique ++ "INDEX ".toList ++ n ++ " ON ".toList ++ t ++
        " (".toList ++ l ++ [')']) =
      some ⟨"CREATE ".toList ++ uniqueWord unique ++ "INDEX ".toList ++ n ++ " ON ".toList ++ t ++
        " (".toList ++ l ++ [')'], uniquePart unique ++ [(2, n), (3, t), (4, l)], []⟩ := by
  have hWord : ∀ {w : List Char}, Text.isIdentifier w = true → ∀ c ∈ w, Text.isWordChar c = true :=
    Text.isWordChar_of_isIdentifier
  have hHead : ∀ {w : List Char}, Text.isIdentifier w = true → ∀ s : List Char, ∀ c ∈ (w ++ s).head?,
      Text.isBlank c = false := fun hw => Text.isBlank_head_append (Text.ne_nil_of_isIdentifier hw) (hWord hw)
  -- the parts of the clause, each before any text that may come next
  have hCreate : ∀ q s, (keyword "CREATE".toList).Takes q "CREATE".toList [] s := takes_keyword (by decide)
  have hBeforeUnique : ∀ q s, blanks.Takes q [' '] [] (uniqueWord unique ++ ("INDEX".toList ++ s)) :=
    fun q s => takes_space (head?_uniqueWord unique s) q
  have hIndex : ∀ q s, (keyword "INDEX".toList).Takes q "INDEX".toList [] s := takes_keyword (by decide)
  have hBeforeName : ∀ q s, blanks.Takes q [' '] [] ([] ++ (n ++ s)) := fun q s => takes_space (hHead hn s) q
  have hIf : ∀ q s, ifNotExists.Takes q [] [] (n ++ ([' '] ++ ("ON".toList ++ s))) := fun q _ =>
    takes_ifNotExists_nil (hWord hn) (by decide) (by decide) q
  have hName : ∀ q s, (name 2).Takes (blanks ++ q) n [(2, n)] ([' '] ++ s) := fun q s =>
    takes_name 2 (Text.ne_nil_of_isIdentifier hn) (hWord hn) (by simp; decide) (refuses_blanks.append q)
  have hBeforeOn : ∀ q s, blanks.Takes q [' '] [] ("ON".toList ++ s) := fun q s =>
    takes_space (by simp; decide) q
  have hOn : ∀ q s, (keyword "ON".toList).Takes q "ON".toList [] s := takes_keyword (by decide)
  have hBeforeTable : ∀ q s, blanks.Takes q [' '] [] (t ++ s) := fun q s => takes_space (hHead ht s) q
  have hTable : (name 3).Takes (gap ++ (parenthesized 4 ++ empty)) t [(3, t)]
      ([' '] ++ ('(' :: l ++ [')'] ++ [])) :=
    takes_name 3 (Text.ne_nil_of_isIdentifier ht) (hWord ht) (by simp; decide)
      (refuses_blanks.maybe_append ((refuses_parenthesized 4 (by decide)).append empty))
  have hGap : gap.Takes (parenthesized 4 ++ empty) [' '] [] ('(' :: l ++ [')'] ++ []) :=
    takes_gap (by decide) (by simp; decide) ((refuses_parenthesized 4 (by decide)).append empty)
  have hColumns : (parenthesized 4).Takes empty ('(' :: l ++ [')']) [(4, l)] [] :=
    takes_parenthesized 4 hl hClose _ _
  have hAll : createIndexClause.Takes empty _ _ [] :=
    ((((((((((((hCreate _ _).append (hBeforeUnique _ _)).append (takes_unique unique _ _)).append
      (hIndex _ _)).append (hBeforeName _ _)).append (hIf _ _)).append (hName _ _)).append
      (hBeforeOn _ _)).append (hOn _ _)).append (hBeforeTable _ _)).append hTable).append hGap).append hColumns
  have hText : "CREATE ".toList ++ uniqueWord unique ++ "INDEX ".toList ++ n ++ " ON ".toList ++ t ++
      " (".toList ++ l ++ [')'] =
        "CREATE".toList ++ [' '] ++ uniqueWord unique ++ "INDEX".toList ++ [' '] ++ [] ++ n ++ [' '] ++
          "ON".toList ++ [' '] ++ t ++ [' '] ++ ('(' :: l ++ [')']) := by simp
  have hFind := hAll.find
  rw [List.append_nil] at hFind
  rw [hText, hFind]
  simp

/-- An index is read back from its statement, together with the name of its table. -/
theorem readIndex?_render {table : String} {i : Index} (ht : Text.isIdentifier table.toList = true)
    (h : i.Renderable) : readIndex? (i.render table) = some (table, i) := by
  have hClose : ')' ∉ namesText i.columns :=
    not_mem_namesText h.columns (by decide) (by decide) (by decide)
  have hColumns : ((namesText i.columns).splitOnP fun c => c == ',').map
      (fun t => String.ofList (Text.trim t)) = i.columns := by
    show List.map (String.ofList ∘ Text.trim) _ = _
    rw [← List.map_map, map_trim_splitOnP_namesText h.nonempty h.columns,
      map_ofList_map_toList]
  have hFind := find_createIndexClause h.name ht (namesText_ne_nil h.nonempty h.columns) hClose i.isUnique
  rw [readIndex?, Index.render_eq, ← uniqueWord, hFind]
  obtain ⟨name, columns, unique⟩ := i
  cases unique <;> simp [Hit.groupText, Hit.group?, uniquePart, hColumns]

/-! ## No table -/

theorem refuses_createTableShape : createTableShape.Refuses fun c => !Text.sameLetter 'C' c :=
  ((refuses_keyword (l := 'C') fun c hc => by simpa using hc).append _).append _

/-- A search for CREATE TABLE passes over a word when no TABLE comes next. -/
theorem passesOver_createTableShape {w b : List Char} {last : Option Char} (hw : Text.isIdentifier w = true)
    (hb : ∀ c ∈ b.head?, Text.isWordChar c = false)
    (hNone : ∀ last, (blanks ++ keyword "TABLE".toList).hits last b = []) :
    createTableShape.PassesOver last w b := by
  have hNext : (blanks ++ keyword "TABLE".toList).Refuses Text.isWordChar := refuses_blanks.append _
  exact (passesOver_append_assoc _).2 (passesOver_word (by decide) (isWordChar_of_isLettered (by decide))
    (Text.isWordChar_of_isIdentifier hw) hb hNext hNone)

/-- CREATE TABLE does not stand in a statement for an index, whatever the names are. -/
theorem createsTable_render_index {table : String} {i : Index} (ht : Text.isIdentifier table.toList = true)
    (h : i.Renderable) : createsTable (i.render table) = false := by
  have hOther := refuses_createTableShape
  have hColumns : ∀ last, createTableShape.PassesOver last
      (namesText i.columns) [')'] := by
    refine fun last => passesOver_commaList hOther (by decide) (by decide) (fun w hw last d b hd => ?_) last []
    obtain ⟨n, hn, rfl⟩ := List.mem_map.1 hw
    refine passesOver_createTableShape (h.columns n hn) ?_ fun last => ?_
    · rcases hd with rfl | rfl <;> simp <;> decide
    · rcases hd with rfl | rfl <;> rfl
  -- part by part from the end: no word is followed by TABLE, and what is between has no C
  have hTable : ∀ last, createTableShape.PassesOver last
      (table.toList ++ (" (".toList ++ namesText i.columns)) [')'] := fun last =>
    (passesOver_createTableShape ht (by simp; decide) fun _ => rfl).append
      ((hOther.passesOver (by decide)).append (hColumns _))
  have hName : ∀ last, createTableShape.PassesOver last (i.name.toList ++ (" ON ".toList ++
      (table.toList ++ (" (".toList ++ namesText i.columns)))) [')'] := fun last =>
    (passesOver_createTableShape h.name (by simp; decide) fun _ => rfl).append
      ((hOther.passesOver (by decide)).append (hTable _))
  have hSpaces : ∀ unique, ∀ c ∈ [' '] ++ uniqueWord unique ++ "INDEX ".toList,
      (!Text.sameLetter 'C' c) = true := by decide
  have hUnique : ∀ s : List Char, ∀ last, (blanks ++ keyword "TABLE".toList).hits last
      ([' '] ++ uniqueWord i.isUnique ++ "INDEX ".toList ++ s) = [] := by
    intro s last
    cases i.isUnique <;> rfl
  have hAll : createTableShape.PassesOver none ("CREATE".toList ++ ([' '] ++ uniqueWord i.isUnique ++
      "INDEX ".toList ++ (i.name.toList ++ (" ON ".toList ++ (table.toList ++ (" (".toList ++
        namesText i.columns)))))) [')'] := by
    refine (passesOver_createTableShape (by decide) (by simp; decide) ?_).append
      ((hOther.passesOver (hSpaces _)).append (hName _))
    intro last
    rw [List.append_assoc]
    exact hUnique _ last
  have hText : i.render table = "CREATE".toList ++ ([' '] ++ uniqueWord i.isUnique ++ "INDEX ".toList ++
      (i.name.toList ++ (" ON ".toList ++ (table.toList ++ (" (".toList ++
        namesText i.columns))))) ++ [')'] := by
    rw [Index.render_eq, ← uniqueWord]
    simp
  rw [createsTable, occursIn, find, hText, findFrom_append hAll]
  rfl

end SqlSurvey.Ddl
