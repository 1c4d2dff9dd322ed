import SqlSurvey.Proofs.Ddl.Column
import SqlSurvey.Proofs.Ddl.Written

/-!
# Keys that are read back

Lists of names in parentheses, and the two items that hold them: the primary key of a table and a foreign
key with its actions.
-/

namespace SqlSurvey.Ddl

open Pattern

variable {s : List Char} {names : List String}

/-! ## Lists of names -/

theorem map_ofList_map_toList (names : List String) : (names.map String.toList).map String.ofList = names := by
  rw [List.map_map]
  exact (List.map_congr_left fun n _ => String.ofList_toList).trans (List.map_id _)

/-- A list is split at its commas, and the spaces after them are trimmed. -/
theorem map_trim_splitOnP_commaList {parts : List (List Char)} (hNonempty : parts ≠ [])
    (h : ∀ t ∈ parts, (∀ c ∈ t, (c == ',') = false) ∧ Text.trim t = t) {l : List Char}
    (hl : ∀ c ∈ l, Text.isBlank c = true ∧ (c == ',') = false) :
    ((l ++ Sql.commaList parts).splitOnP fun c => c == ',').map Text.trim = parts := by
  induction parts generalizing l with
  | nil => exact absurd rfl hNonempty
  | cons t parts ih =>
    obtain ⟨hComma, hTrim⟩ := h t List.mem_cons_self
    have hLead : Text.trim (l ++ t) = t := by
      have := Text.trim_append_blanks (fun c hc => (hl c hc).1) (r := []) (by simp) t
      rwa [List.append_nil, hTrim] at this
    have hPart : ∀ c ∈ l ++ t, (c == ',') = false := by
      intro c hc
      rcases List.mem_append.1 hc with hc | hc
      · exact (hl c hc).2
      · exact hComma c hc
    cases parts with
    | nil =>
      rw [Sql.commaList, List.intercalate_singleton, List.splitOnP_eq_singleton hPart, List.map_singleton,
        hLead]
    | cons u parts =>
      have hText : l ++ Sql.commaList (t :: u :: parts) =
          (l ++ t) ++ ',' :: ([' '] ++ Sql.commaList (u :: parts)) := by
        simp [Sql.commaList, List.intercalate_cons_cons]
      have hRest := ih (by simp) (fun v hv => h v (List.mem_cons_of_mem t hv)) (l := [' ']) (by decide)
      rw [hText, List.splitOnP_append_cons_of_forall_mem hPart ',' rfl, List.map_cons, hLead, hRest]

/-- What the list of some identifiers is made of. -/
theorem mem_commaList {parts : List (List Char)} (h : ∀ t ∈ parts, Text.isIdentifier t = true) :
    ∀ c ∈ Sql.commaList parts, Text.isIdentifierChar c = true ∨ c = ',' ∨ c = ' ' := by
  induction parts with
  | nil => simp [Sql.commaList]
  | cons t parts ih =>
    have ht := fun c hc => Text.isIdentifierChar_of_mem (h t List.mem_cons_self) (c := c) hc
    cases parts with
    | nil =>
      intro c hc
      rw [Sql.commaList, List.intercalate_singleton] at hc
      exact .inl (ht c hc)
    | cons u parts =>
      intro c hc
      rw [Sql.commaList, List.intercalate_cons_cons] at hc
      rcases List.mem_append.1 hc with hc | hc
      · rcases List.mem_append.1 hc with hc | hc
        · exact .inl (ht c hc)
        · right
          simpa using hc
      · exact ih (fun v hv => h v (List.mem_cons_of_mem t hv)) c hc

/-- Identifiers in a list are split apart without loss. -/
theorem map_trim_splitOnP_namesText (hNonempty : names ≠ [])
    (h : ∀ n ∈ names, Text.isIdentifier n.toList = true) :
    ((namesText names).splitOnP fun c => c == ',').map Text.trim = names.map String.toList := by
  refine map_trim_splitOnP_commaList (l := []) (by simpa using hNonempty) (fun t ht => ?_) (by simp)
  obtain ⟨n, hn, rfl⟩ := List.mem_map.1 ht
  refine ⟨fun c hc => ?_, Text.trim_of_forall (Text.isBlank_of_isIdentifier (h n hn))⟩
  rw [beq_eq_false_iff_ne]
  exact Text.ne_of_mem_identifier (h n hn) (by decide) c hc

/-- An identifier has no quotes to strip. -/
theorem stripQuotes_of_isIdentifier (h : Text.isIdentifier s = true) : nameList.stripQuotes s = s := by
  have hBare := WrittenName.stripQuotes_text
    ⟨.bare, s, Text.ne_nil_of_isIdentifier h, Text.isWordChar_of_isIdentifier h⟩
  rwa [WrittenName.text, Quoting.opening, Quoting.closing, List.nil_append, List.append_nil] at hBare

/-- The names in a list are read back. -/
theorem nameList_namesText (hNonempty : names ≠ []) (h : ∀ n ∈ names, Text.isIdentifier n.toList = true) :
    nameList (namesText names) = names.map String.toList := by
  have hStrip : ∀ t ∈ names.map String.toList, nameList.stripQuotes t = t := by
    intro t ht
    obtain ⟨n, hn, rfl⟩ := List.mem_map.1 ht
    exact stripQuotes_of_isIdentifier (h n hn)
  have hSplit := map_trim_splitOnP_namesText hNonempty h
  have hMap : ((namesText names).splitOnP fun c => c == ',').map
      (fun t => nameList.stripQuotes (Text.trim t)) = names.map String.toList := by
    show List.map (nameList.stripQuotes ∘ Text.trim) _ = _
    rw [← List.map_map, hSplit]
    exact (List.map_congr_left hStrip).trans (List.map_id _)
  rw [nameList, hMap, List.filter_eq_self]
  intro t ht
  obtain ⟨n, hn, rfl⟩ := List.mem_map.1 ht
  simpa using Text.ne_nil_of_isIdentifier (h n hn)

theorem namesText_ne_nil (hNonempty : names ≠ []) (h : ∀ n ∈ names, Text.isIdentifier n.toList = true) :
    namesText names ≠ [] := by
  obtain ⟨n, ns, rfl⟩ := List.exists_cons_of_ne_nil hNonempty
  have hn := Text.ne_nil_of_isIdentifier (h n List.mem_cons_self)
  cases ns with
  | nil => simpa [namesText, Sql.commaList] using hn
  | cons m ns =>
    rw [namesText, Sql.commaList, List.map_cons, List.map_cons, List.intercalate_cons_cons]
    simp

/-- What a list of names is made of. -/
theorem mem_namesText (h : ∀ n ∈ names, Text.isIdentifier n.toList = true) :
    ∀ c ∈ namesText names, Text.isIdentifierChar c = true ∨ c = ',' ∨ c = ' ' := by
  refine mem_commaList fun t ht => ?_
  obtain ⟨n, hn, rfl⟩ := List.mem_map.1 ht
  exact h n hn

/-- A character that ends a list does not stand in a list of names. -/
theorem not_mem_namesText (h : ∀ n ∈ names, Text.isIdentifier n.toList = true) {d : Char}
    (hd : Text.isIdentifierChar d = false) (hComma : d ≠ ',') (hSpace : d ≠ ' ') :
    d ∉ namesText names := by
  intro hMem
  rcases mem_namesText h d hMem with hc | hc | hc
  · exact Bool.false_ne_true (hd.symm.trans hc)
  · exact hComma hc
  · exact hSpace hc

/-- A search passes over a list when it passes over the parts, and over the commas and spaces between. -/
theorem passesOver_commaList {p : Pattern} {A : Char → Bool} (hp : p.Refuses A) (hComma : A ',' = true)
    (hSpace : A ' ' = true) {parts : List (List Char)}
    (h : ∀ t ∈ parts, ∀ last d b, d = ',' ∨ d = ')' → p.PassesOver last t (d :: b)) (last : Option Char)
    (b : List Char) : p.PassesOver last (Sql.commaList parts) (')' :: b) := by
  induction parts generalizing last with
  | nil => trivial
  | cons t parts ih =>
    have ht := h t List.mem_cons_self
    cases parts with
    | nil =>
      rw [Sql.commaList, List.intercalate_singleton]
      exact ht last ')' b (.inr rfl)
    | cons u parts =>
      have hRest := ih fun v hv => h v (List.mem_cons_of_mem t hv)
      have hText : Sql.commaList (t :: u :: parts) = t ++ ([',', ' '] ++ Sql.commaList (u :: parts)) := by
        simp [Sql.commaList, List.intercalate_cons_cons]
      rw [hText]
      exact (ht last ',' _ (.inl rfl)).append ((hp.passesOver (by simp [hComma, hSpace])).append (hRest _))

/-! ## The primary key of a table -/

/-- The clause for a primary key is read to its end. -/
theorem find_primaryKeyClause {b : List Char} (hb : b ≠ []) (hClose : ')' ∉ b) :
    primaryKeyClause.find ("PRIMARY KEY (".toList ++ b ++ [')']) =
      some ⟨"PRIMARY KEY (".toList ++ b ++ [')'], [(1, b)], []⟩ := by
  have hList : (parenthesized 1).Takes empty ('(' :: b ++ [')']) [(1, b)] [] :=
    takes_parenthesized 1 hb hClose _ _
  have hGap : gap.Takes (parenthesized 1 ++ empty) [' '] [] ('(' :: b ++ [')'] ++ []) :=
    takes_gap (by decide) (by simp; decide) ((refuses_parenthesized 1 (by decide)).append empty)
  have hPhrase : (phrase "PRIMARY" ["KEY"]).Takes (gap ++ (parenthesized 1 ++ empty))
      ("PRIMARY".toList ++ [' '] ++ "KEY".toList) [] ([' '] ++ ('(' :: b ++ [')'] ++ [])) :=
    takes_phrase (by decide) (by decide) (by decide) _ _
  have hAll : primaryKeyClause.Takes empty _ _ [] := (hPhrase.append hGap).append hList
  have hText : "PRIMARY KEY (".toList ++ b ++ [')'] =
      "PRIMARY".toList ++ [' '] ++ "KEY".toList ++ [' '] ++ ('(' :: b ++ [')']) := by simp
  have hFind := hAll.find
  rw [List.append_nil] at hFind
  rw [hText, hFind]
  rfl

/-- An item that begins with a phrase is seen to begin with it. -/
theorem occursIn_atStart_phrase_self {first second : String} (hFirst : Spells first.toList first.toList)
    (hSecond : Spells second.toList second.toList) (hLetter : beginsWithLetter second = true)
    (s : List Char) :
    (atStart ++ phrase first [second]).occursIn (first.toList ++ [' '] ++ second.toList ++ s) = true := by
  have hPhrase : (phrase first [second]).Takes empty (first.toList ++ [' '] ++ second.toList) [] s :=
    takes_phrase hFirst hSecond hLetter _ _
  rw [occursIn, find_atStart_append, here, hPhrase.hits]
  rfl

theorem isItem_keyItem {b : List Char} (hTame : Sql.tame b = true)
    (hChars : ∀ c ∈ b, Sql.isItemChar c = true ∨ c = ',') :
    Sql.IsItem ("PRIMARY KEY (".toList ++ b ++ [')']) where
  tame := Sql.tame_append (Sql.tame_append (by decide) hTame) (by decide)
  item := by
    have hText : "PRIMARY KEY (".toList ++ b ++ [')'] =
        "PRIMARY KEY ".toList ++ ('(' :: (b ++ [')'])) := by simp
    rw [hText, List.map_append, Sql.isItem_append_of_forall (by decide)]
    exact Sql.isItem_parenthesized hChars
  trim := Text.trim_eq_self (by simp; decide) (by
    rw [List.getLast?_append_of_ne_nil _ (by simp)]
    decide)
  nonempty := by simp

/-- A list of names is tame, and only commas in it separate anything. -/
theorem tame_namesText (h : ∀ n ∈ names, Text.isIdentifier n.toList = true) :
    Sql.tame (namesText names) = true ∧ ∀ c ∈ namesText names, Sql.isItemChar c = true ∨ c = ',' := by
  have hTame : ∀ t ∈ names.map String.toList, Sql.tame t = true := by
    intro t ht
    obtain ⟨n, hn, rfl⟩ := List.mem_map.1 ht
    exact Sql.tame_of_isIdentifier (h n hn)
  refine ⟨Sql.tame_commaList hTame, fun c hc => ?_⟩
  rcases mem_namesText h c hc with hc | rfl | rfl
  · exact .inl (Sql.isItemChar_of_isIdentifierChar hc)
  · exact .inr rfl
  · exact .inl (by decide)

/-- A primary key that has been written down adds its names to the primary key of the table. -/
theorem addItem_keyItem (hNonempty : names ≠ []) (h : ∀ n ∈ names, Text.isIdentifier n.toList = true)
    (t : Table) :
    addItem t ("PRIMARY KEY (".toList ++ namesText names ++ [')']) =
      { t with primaryKey := t.primaryKey ++ names } := by
  have hClose : ')' ∉ namesText names :=
    not_mem_namesText h (by decide) (by decide) (by decide)
  have hForeign : foreignKeyItem.occursIn
      ("PRIMARY KEY (".toList ++ namesText names ++ [')']) = false := by
    have hText : "PRIMARY KEY (".toList ++ namesText names ++ [')'] =
        "PRIMARY".toList ++ (" KEY (".toList ++ namesText names ++ [')']) := by
      simp
    rw [hText]
    exact occursIn_atStart_phrase (by decide) (by decide) (by decide) (by simp; decide) (by decide)
  have hPrimary : primaryKeyItem.occursIn
      ("PRIMARY KEY (".toList ++ namesText names ++ [')']) = true := by
    have hText : "PRIMARY KEY (".toList ++ namesText names ++ [')'] =
        "PRIMARY".toList ++ [' '] ++ "KEY".toList ++
          (" (".toList ++ namesText names ++ [')']) := by simp
    rw [hText]
    exact occursIn_atStart_phrase_self (by decide) (by decide) (by decide) _
  have hRead : readPrimaryKey
      ("PRIMARY KEY (".toList ++ namesText names ++ [')']) = names := by
    rw [readPrimaryKey, find_primaryKeyClause (namesText_ne_nil hNonempty h) hClose]
    show (nameList (namesText names)).map String.ofList = names
    rw [nameList_namesText hNonempty h, map_ofList_map_toList]
  rw [addItem, hForeign, if_neg Bool.false_ne_true, if_pos hPrimary, hRead]

/-! ## Foreign keys -/

/-- The tokens of a clause for a foreign key, but for its lists of columns. -/
structure KeyTokens where
  foreign : Spelling "FOREIGN"
  foreignEnd : Space
  key : Spelling "KEY"
  keyEnd : Gap
  columnsEnd : Gap
  references : Spelling "REFERENCES"
  referencesEnd : Space
  table : WrittenName
  tableEnd : Gap

/-- The text of a clause up to the referenced columns. -/
def KeyTokens.text (k : KeyTokens) (columns referenced : List Char) : List Char :=
  k.foreign.text ++ k.foreignEnd.text ++ k.key.text ++ k.keyEnd.text ++ ('(' :: columns ++ [')']) ++
    k.columnsEnd.text ++ k.references.text ++ k.referencesEnd.text ++ k.table.text ++ k.tableEnd.text ++
    ('(' :: referenced ++ [')'])

/-- Two keywords with blanks between are a phrase. -/
theorem takes_phrase_spellings {first second : String} (hSecond : IsKeyword second) (v : Spelling first) (b : Space)
    (w : Spelling second) (q : Pattern) (s : List Char) :
    (phrase first [second]).Takes q (v.text ++ b.text ++ w.text) [] s :=
  ((v.takes _ _).append (b.takes (w.isBlank_head hSecond s) (hSecond.refuses_blank.append q))).append (w.takes q s)

/-- A clause is read to the end of the referenced columns. -/
theorem KeyTokens.find (k : KeyTokens) {b d : List Char} (hb : b ≠ []) (hbClose : ')' ∉ b) (hd : d ≠ [])
    (hdClose : ')' ∉ d) (s : List Char) :
    foreignKeyClause.find (k.text b d ++ s) = some ⟨k.text b d, [(1, b), (2, k.table.name), (3, d)], s⟩ := by
  have hOpen : ∀ n q, (parenthesized n ++ q).Refuses Text.isBlank := fun n q =>
    (refuses_parenthesized n (by decide)).append q
  have hParen : ∀ t s : List Char, ∀ c ∈ ('(' :: t ++ [')'] ++ s).head?, Text.isBlank c = false := fun t s =>
    by simp; decide
  have hReferences : IsKeyword "REFERENCES" := by decide
  -- what comes after the table neither goes on with its name nor closes it
  have hAfterName : (gap ++ (parenthesized 3 ++ empty)).Refuses Text.isWordChar :=
    refuses_blanks.maybe_append ((refuses_parenthesized 3 (by decide)).append empty)
  have hAfterQuote : (gap ++ (parenthesized 3 ++ empty)).Refuses closesName :=
    (refuses_many fun c hc => isBlank_of_isNameQuote (by rw [nameList.isNameQuote, hc, Bool.or_true])).maybe_append
      ((refuses_parenthesized 3 (by decide)).append empty)
  have hAfterTable : ∀ c ∈ (k.tableEnd.text ++ ('(' :: d ++ [')'] ++ s)).head?,
      Text.isWordChar c = false ∧ closesName c = false := by
    intro c hc
    cases hGap : k.tableEnd.text with
    | nil =>
      rw [hGap, List.nil_append] at hc
      obtain rfl := Option.some_inj.1 hc
      decide
    | cons e t =>
      rw [hGap, List.cons_append] at hc
      obtain rfl := Option.some_inj.1 hc
      have hBlank := k.tableEnd.blank e (by rw [hGap]; exact List.mem_cons_self)
      exact ⟨Text.isWordChar_of_isBlank hBlank, closesName_of_isBlank hBlank⟩
  have hPhrase := takes_phrase_spellings (by decide : IsKeyword "KEY") k.foreign k.foreignEnd k.key
  have hAll : foreignKeyClause.Takes empty _ _ s :=
    ((((((((hPhrase _ _).append (k.keyEnd.takes (hParen _ _) (hOpen 1 _))).append
      (takes_parenthesized 1 hb hbClose _ _)).append
      (k.columnsEnd.takes (k.references.isBlank_head hReferences _) (hReferences.refuses_blank.append _))).append
      (k.references.takes _ _)).append
      (k.referencesEnd.takes (k.table.isSolid.head _) ((refuses_name 2).append _))).append
      (k.table.takes 2 hAfterName hAfterQuote hAfterTable)).append (k.tableEnd.takes (hParen _ _) (hOpen 3 _))).append
      (takes_parenthesized 3 hd hdClose empty s)
  exact hAll.find

/-- The clause for a foreign key of one column is read to the end of the referenced column. -/
theorem find_foreignKeyClause {c t d : List Char} (hc : Text.isIdentifier c = true)
    (ht : Text.isIdentifier t = true) (hd : Text.isIdentifier d = true) (r : List Char) :
    foreignKeyClause.find
        ("FOREIGN KEY (".toList ++ c ++ ") REFERENCES ".toList ++ t ++ ['('] ++ d ++ [')'] ++ r) =
      some ⟨"FOREIGN KEY (".toList ++ c ++ ") REFERENCES ".toList ++ t ++ ['('] ++ d ++ [')'],
        [(1, c), (2, t), (3, d)], r⟩ := by
  have hClose : ∀ {n : List Char}, Text.isIdentifier n = true → ')' ∉ n := fun hn hMem =>
    Text.ne_of_mem_identifier hn (by decide) _ hMem rfl
  let k : KeyTokens := {
    foreign := .plain "FOREIGN"
    foreignEnd := .one
    key := .plain "KEY"
    keyEnd := Space.one.toGap
    columnsEnd := Space.one.toGap
    references := .plain "REFERENCES"
    referencesEnd := .one
    table := ⟨.bare, t, Text.ne_nil_of_isIdentifier ht, Text.isWordChar_of_isIdentifier ht⟩
    tableEnd := ⟨[], by simp⟩ }
  have hText : "FOREIGN KEY (".toList ++ c ++ ") REFERENCES ".toList ++ t ++ ['('] ++ d ++ [')'] = k.text c d := by
    simp [k, KeyTokens.text, Spelling.plain, Space.one, WrittenName.text, Quoting.opening, Quoting.closing]
  rw [hText, k.find (Text.ne_nil_of_isIdentifier hc) (hClose hc) (Text.ne_nil_of_isIdentifier hd) (hClose hd)]

/-- The actions after a foreign key are read back, each for its own event. -/
theorem actionOn_actions : ∀ a ∈ none :: referentialActions.map some, ∀ b ∈ none :: referentialActions.map some,
    actionOn "DELETE" (ForeignKey.actions a b) = a ∧ actionOn "UPDATE" (ForeignKey.actions a b) = b := by
  decide +kernel

/-- Actions leave an item an item. -/
theorem isItem_actions : ∀ a ∈ none :: referentialActions.map some, ∀ b ∈ none :: referentialActions.map some,
    Sql.tame (ForeignKey.actions a b) = true ∧ (ForeignKey.actions a b).all Sql.isItemChar = true ∧
      ∀ c ∈ (ForeignKey.actions a b).getLast?, Text.isBlank c = false := by
  decide +kernel

theorem mem_actions {a : Option String} (h : ∀ b ∈ a, b ∈ referentialActions) :
    a ∈ none :: referentialActions.map some := by
  cases a with
  | none => exact List.mem_cons_self
  | some b => exact List.mem_cons_of_mem none (List.mem_map_of_mem (h b rfl))

/-- A foreign key is read back from its clause. -/
theorem readForeignKeys_render {k : ForeignKey} (h : k.Renderable) : readForeignKeys k.render = [k] := by
  obtain ⟨hDelete, hUpdate⟩ := actionOn_actions _ (mem_actions h.onDelete) _ (mem_actions h.onUpdate)
  have hList : ∀ {n : String}, Text.isIdentifier n.toList = true → nameList n.toList = [n.toList] := by
    intro n hn
    have hNames : ∀ m ∈ [n], Text.isIdentifier m.toList = true := by simpa using hn
    have hOne := nameList_namesText (List.cons_ne_nil n []) hNames
    rwa [namesText, List.map_singleton, Sql.commaList, List.intercalate_singleton] at hOne
  rw [readForeignKeys, ForeignKey.render_eq,
    find_foreignKeyClause h.column h.referencesTable h.referencesColumn]
  simp [Hit.groupText, Hit.group?, hList h.column, hList h.referencesColumn, hDelete, hUpdate]

theorem isItem_render_foreignKey {k : ForeignKey} (h : k.Renderable) : Sql.IsItem k.render where
  tame := by
    obtain ⟨hActions, -, -⟩ := isItem_actions _ (mem_actions h.onDelete) _ (mem_actions h.onUpdate)
    rw [ForeignKey.render_eq]
    have hName : ∀ {n : List Char}, Text.isIdentifier n = true → Sql.tame n = true := Sql.tame_of_isIdentifier
    refine Sql.tame_append (Sql.tame_append (Sql.tame_append (Sql.tame_append (Sql.tame_append
      (Sql.tame_append (Sql.tame_append (by decide) (hName h.column)) (by decide)) (hName h.referencesTable))
      (by decide)) (hName h.referencesColumn)) (by decide)) hActions
  item := by
    obtain ⟨-, hActions, -⟩ := isItem_actions _ (mem_actions h.onDelete) _ (mem_actions h.onUpdate)
    have hName : ∀ {n : List Char}, Text.isIdentifier n = true → ∀ c ∈ n, Sql.isItemChar c = true :=
      fun hn c hc => Sql.isItemChar_of_isIdentifierChar (Text.isIdentifierChar_of_mem hn hc)
    have hList : ∀ {n : List Char}, Text.isIdentifier n = true →
        Sql.isItem 0 (('(' :: (n ++ [')'])).map .plain) = true := fun hn =>
      Sql.isItem_parenthesized fun c hc => .inl (hName hn c hc)
    have hText : k.render = "FOREIGN KEY ".toList ++ ('(' :: (k.column.toList ++ [')']) ++
        (" REFERENCES ".toList ++ (k.referencesTable.toList ++ ('(' :: (k.referencesColumn.toList ++ [')']) ++
          ForeignKey.actions k.onDelete k.onUpdate)))) := by
      rw [ForeignKey.render_eq]
      simp
    rw [hText, List.map_append, Sql.isItem_append_of_forall (by decide), List.map_append]
    refine Sql.isItem_append (hList h.column) ?_
    rw [List.map_append, Sql.isItem_append_of_forall (by decide), List.map_append,
      Sql.isItem_append_of_forall (hName h.referencesTable), List.map_append]
    exact Sql.isItem_append (hList h.referencesColumn) (Sql.isItem_of_forall (List.all_eq_true.1 hActions))
  trim := by
    obtain ⟨-, -, hActions⟩ := isItem_actions _ (mem_actions h.onDelete) _ (mem_actions h.onUpdate)
    rw [ForeignKey.render_eq]
    refine Text.trim_eq_self (by simp; decide) (Text.isBlank_getLast_append ?_ hActions)
    rw [List.getLast?_append_of_ne_nil _ (by simp)]
    decide
  nonempty := by rw [ForeignKey.render_eq]; simp

/-- A foreign key that has been written down adds that foreign key to the table. -/
theorem addItem_render_foreignKey {k : ForeignKey} (h : k.Renderable) (t : Table) :
    addItem t k.render = { t with foreignKeys := t.foreignKeys ++ [k] } := by
  have hForeign : foreignKeyItem.occursIn k.render = true := by
    have hText : k.render = "FOREIGN".toList ++ [' '] ++ "KEY".toList ++ (" (".toList ++ (k.column.toList ++
        (") REFERENCES ".toList ++ (k.referencesTable.toList ++ ('(' :: (k.referencesColumn.toList ++
          (')' :: ForeignKey.actions k.onDelete k.onUpdate))))))) := by
      rw [ForeignKey.render_eq]
      simp
    rw [hText]
    exact occursIn_atStart_phrase_self (by decide) (by decide) (by decide) _
  rw [addItem, if_pos hForeign, readForeignKeys_render h]

end SqlSurvey.Ddl
