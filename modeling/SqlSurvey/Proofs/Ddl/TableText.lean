import SqlSurvey.Proofs.Ddl.Body
import SqlSurvey.Proofs.Ddl.ItemText
import SqlSurvey.Proofs.Schema.Shapes

/-!
# Tables whatever the quotes of their names are

A statement for a table is written as the words that create it, its name and its items, and perhaps options behind
them. It creates the same table when the names are written without quotes, and no index.
-/

namespace SqlSurvey.Ddl

open Pattern

variable {q : Pattern} {s : List Char} {word : String}

/-! ## IF NOT EXISTS -/

/-- IF NOT EXISTS as it is written. -/
structure Condition where
  start : Spelling "IF"
  startEnd : Space
  not : Spelling "NOT"
  notEnd : Space
  exist : Spelling "EXISTS"
  existEnd : Space

namespace Condition

/-- The text of the condition, if there is one. -/
def textOf : Option Condition → List Char
  | none => []
  | some c => c.start.text ++ (c.startEnd.text ++ (c.not.text ++ (c.notEnd.text ++ (c.exist.text ++ c.existEnd.text))))

theorem isPart_textOf (o : Option Condition) : Sql.IsPart (textOf o) := by
  cases o with
  | none => exact Sql.isPart_of_forall (by simp [textOf])
  | some c =>
    exact (c.start.isPart (by decide)).append (c.startEnd.toGap.isPart.append ((c.not.isPart (by decide)).append
      (c.notEnd.toGap.isPart.append ((c.exist.isPart (by decide)).append c.existEnd.toGap.isPart))))

/-- Before a name, the condition is taken as a whole; a name alone is not taken for its first word. -/
theorem takes (o : Option Condition) (n : WrittenName) (hs : ∀ d ∈ s.head?, Text.isWordChar d = false)
    (hNone : ∀ last, (blanks ++ keyword "NOT".toList).hits last s = []) (hBlank : q.Refuses Text.isBlank)
    (hName : ∀ (v : Spelling "IF") (b : Space) (w : Spelling "NOT") last t,
      q.hits last (v.text ++ (b.text ++ (w.text ++ t))) = []) :
    ifNotExists.Takes q (textOf o) [] (n.text ++ s) := by
  cases o with
  | none =>
    refine takes_maybe_nil fun last => hits_append_eq_nil (hits_append_eq_nil (hits_append_eq_nil
      (hits_append_eq_nil ?_)))
    have hOver := n.passesOver (by decide : IsKeyword "IF") hs hNone last
    obtain ⟨d, w, hText⟩ := List.exists_cons_of_ne_nil n.isSolid.1
    rw [hText] at hOver ⊢
    exact (hits_append_assoc _ _ _ _ _).trans hOver.1
  | some c =>
    have hBlanks := c.notEnd.takes (q := keyword "EXISTS".toList ++ (blanks ++ q))
      (c.exist.isBlank_head (by decide) (c.existEnd.text ++ (n.text ++ s)))
      ((by decide : IsKeyword "EXISTS").refuses_blank.append _)
    have hPhrase := (takes_phrase_spellings (by decide) c.start c.startEnd c.not
      (blanks ++ (keyword "EXISTS".toList ++ (blanks ++ q))) _).append hBlanks
    have hAll := (hPhrase.append (c.exist.takes _ _)).append (c.existEnd.takes (n.isSolid.head s) hBlank)
    have hText : textOf (some c) = c.start.text ++ c.startEnd.text ++ c.not.text ++ c.notEnd.text ++ c.exist.text ++
        c.existEnd.text := by simp [textOf]
    rw [hText]
    refine Takes.maybe hAll fun last => ?_
    rw [← hText, textOf, List.append_assoc, List.append_assoc, List.append_assoc]
    exact hName c.start c.startEnd c.not last _

theorem isBlank_head_textOf (o : Option Condition) (hs : ∀ d ∈ s.head?, Text.isBlank d = false) :
    ∀ d ∈ (textOf o ++ s).head?, Text.isBlank d = false := by
  cases o with
  | none => exact hs
  | some c =>
    rw [textOf, List.append_assoc]
    exact c.start.isBlank_head (by decide) _

/-- No blank begins the condition or what comes after it. -/
theorem refuses_ifNotExists (hq : q.Refuses Text.isBlank) : (ifNotExists ++ q).Refuses Text.isBlank := by
  have hIf : IsKeyword "IF" := by decide
  exact Refuses.maybe_append (((((hIf.refuses_blank.append _).append _).append _).append _).append _) hq

/-- No word of the condition begins with CREATE or ends in it. -/
theorem passesOver_spellings (h : IsKeyword word)
    (hNot : ∀ other ∈ ["IF", "NOT", "EXISTS"], ¬ word.toList.map Text.lowerAscii <:+ other.toList.map Text.lowerAscii)
    (q : Pattern) (o : Option Condition) (last : Option Char) (s : List Char) :
    (keyword word.toList ++ (blanks ++ q)).PassesOver last (textOf o) s := by
  cases o with
  | none => trivial
  | some c =>
    have hGap : ∀ (b : Space) last t, (keyword word.toList ++ (blanks ++ q)).PassesOver last b.text t := fun b =>
      b.toGap.passesOver (refuses_keyword_blanks h q)
    have hWord : ∀ {other : String}, IsKeyword other → other ∈ ["IF", "NOT", "EXISTS"] → ∀ (w : Spelling other)
        (b : Space) last t, (keyword word.toList ++ (blanks ++ q)).PassesOver last w.text (b.text ++ t) :=
      fun hOther hMem w b last t => passesOver_spelling hOther h (hNot _ hMem) w (b.isWordChar_head t) q last
    have hStart := fun t => hWord (by decide) (by decide) c.start c.startEnd last t
    have hNot := fun last t => hWord (by decide) (by decide) c.not c.notEnd last t
    have hExist := fun last => hWord (by decide) (by decide) c.exist c.existEnd last s
    exact (hStart _).append_append ((hGap c.startEnd _ _).append ((hNot _ _).append_append
      ((hGap c.notEnd _ _).append ((hExist _).append (hGap c.existEnd _ s)))))

end Condition

/-! ## The body -/

/-- An item with the blanks around it. -/
structure ListedItem where
  before : Gap
  item : TableItem
  after : Gap

namespace ListedItem

/-- The same item without quotes. -/
def bare (i : ListedItem) : ListedItem := { i with item := i.item.bare }

/-- The text of an item with the blanks around it. -/
def text (i : ListedItem) : List Char := i.before.text ++ i.item.text ++ i.after.text

/-- The text of items with commas between. -/
def list (is : List ListedItem) : List Char := [','].intercalate (is.map text)

theorem isPart (i : ListedItem) : Sql.IsPart i.text := (i.before.isPart.append i.item.isPart).append i.after.isPart

theorem list_cons_cons (i j : ListedItem) (is : List ListedItem) :
    list (i :: j :: is) = i.text ++ ([','] ++ list (j :: is)) := by
  simp [list, List.intercalate_cons_cons]

theorem items_text (i : ListedItem) : Sql.items i.text = [i.item.text] := by
  obtain ⟨hHead, hLast⟩ := i.item.isBlank_ends
  have hTrim : Text.trim i.text = i.item.text := by
    rw [text, Text.trim_append_blanks i.before.blank i.after.blank, Text.trim_eq_self hHead hLast]
  rw [i.isPart.items (by rw [hTrim]; exact i.item.text_ne_nil), hTrim]

theorem isBody_list (is : List ListedItem) : Sql.IsBody (list is) := by
  refine Sql.isBody_intercalate fun s hs => ?_
  obtain ⟨i, -, rfl⟩ := List.mem_map.1 hs
  exact i.isPart.isBody

/-- A body falls into its items. -/
theorem items_list (is : List ListedItem) : Sql.items (list is) = is.map fun i => i.item.text := by
  have hBody : ∀ s ∈ is.map text, Sql.IsBody s := fun s hs => by
    obtain ⟨i, -, rfl⟩ := List.mem_map.1 hs
    exact i.isPart.isBody
  rw [list, Sql.items_intercalate hBody, List.flatMap_map]
  induction is with
  | nil => rfl
  | cons i is ih =>
    rw [List.flatMap_cons, items_text, List.map_cons, ih fun s hs => hBody s (List.mem_cons_of_mem _ hs)]
    rfl

theorem isInner_list (is : List ListedItem) : Sql.IsInner (list is) :=
  Sql.isInner_intercalate (by decide) fun s hs => by
    obtain ⟨i, -, rfl⟩ := List.mem_map.1 hs
    exact i.isPart.toIsInner

/-- The items add the same to their table without the quotes. -/
theorem foldl_addItem_bare (is : List ListedItem) (t : Table) :
    ((is.map bare).map fun i => i.item.text).foldl addItem t = (is.map fun i => i.item.text).foldl addItem t := by
  induction is generalizing t with
  | nil => rfl
  | cons i is ih =>
    rw [List.map_cons, List.map_cons, List.map_cons, List.foldl_cons, List.foldl_cons,
      show i.bare.item.text = i.item.bare.text from rfl, i.item.addItem_bare, ih]

/-- No index is created in a body. -/
theorem passesOver_createIndex (is : List ListedItem) (s : List Char) (last : Option Char) :
    createIndexPhrase.PassesOver last (list is) (')' :: s) := by
  have hItem : ∀ (i : ListedItem) (c : Char), Text.isWordChar c = false → Text.isBlank c = false → ∀ t last,
      createIndexPhrase.PassesOver last i.text (c :: t) := fun i c hWord hBlank t last =>
    ((passesOver_createIndex_gap i.before _ _).append
      (i.item.passesOver_createIndex (endsIndex_mark i.after hWord hBlank t) _)).append
      (passesOver_createIndex_gap i.after _ _)
  induction is generalizing last with
  | nil => trivial
  | cons i is ih =>
    cases is with
    | nil =>
      rw [list, List.map_singleton, List.intercalate_singleton]
      exact hItem i ')' (by decide) (by decide) s last
    | cons j is =>
      rw [list_cons_cons]
      exact (hItem i ',' (by decide) (by decide) _ last).append
        ((refuses_createIndexPhrase.passesOver (by decide)).append (ih _))

end ListedItem

/-! ## Statements for tables -/

/-- A statement for a table as it is written, with any text behind its items. -/
structure TableText where
  create : Spelling "CREATE"
  createEnd : Space
  table : Spelling "TABLE"
  tableEnd : Space
  condition : Option Condition
  name : WrittenName
  nameEnd : Gap
  items : List ListedItem
  options : List Char
  free : IsFree options

namespace TableText

/-- The same statement without quotes. -/
def bare (c : TableText) : TableText := { c with
  name := c.name.bare
  items := c.items.map ListedItem.bare }

/-- The text of a statement. -/
def text (c : TableText) : List Char :=
  c.create.text ++ (c.createEnd.text ++ (c.table.text ++ (c.tableEnd.text ++ (Condition.textOf c.condition ++
    (c.name.text ++ (c.nameEnd.text ++ (['('] ++ (ListedItem.list c.items ++ ([')'] ++ c.options)))))))))

/-- The table that is created: one after the other, its items are added to its name. -/
def created (c : TableText) : Table :=
  (c.items.map fun i => i.item.text).foldl addItem (Table.named (String.ofList c.name.name))

variable (c : TableText)

theorem isInner : Sql.IsInner c.text := by
  have hParen : ∀ d ∈ ['(', ')'], Sql.IsInner [d] := by decide +kernel
  have hBody := (hParen '(' (by decide)).append ((ListedItem.isInner_list c.items).append
    ((hParen ')' (by decide)).append c.free.isPart.toIsInner))
  exact (c.create.isPart (by decide)).toIsInner.append (c.createEnd.toGap.isPart.toIsInner.append
    ((c.table.isPart (by decide)).toIsInner.append (c.tableEnd.toGap.isPart.toIsInner.append
      ((Condition.isPart_textOf c.condition).toIsInner.append (c.name.isPart.toIsInner.append
        (c.nameEnd.isPart.toIsInner.append hBody))))))

theorem text_ne_nil : c.text ≠ [] := by simp [text]

theorem trim_text : Text.trim c.text = c.text := by
  have hText : c.text = c.create.text ++ (c.createEnd.text ++ (c.table.text ++ (c.tableEnd.text ++
      (Condition.textOf c.condition ++ (c.name.text ++ (c.nameEnd.text ++ (['('] ++ ListedItem.list c.items)))))))
        ++ [')'] ++ c.options := by simp [text]
  refine Text.trim_eq_self (c.create.isBlank_head (by decide) _) ?_
  rw [hText]
  refine Text.isBlank_getLast_append ?_ c.free.ends
  rw [List.getLast?_concat]
  decide

/-- The head of the statement is read up to the parenthesis that opens the body. -/
theorem find_createTableHead : ∃ t, createTableHead.find c.text =
    some ⟨t, [(1, c.name.name)], ListedItem.list c.items ++ ')' :: c.options⟩ := by
  have hText : c.text = c.create.text ++ c.createEnd.text ++ c.table.text ++ c.tableEnd.text ++
      Condition.textOf c.condition ++ c.name.text ++ c.nameEnd.text ++ ['('] ++
        (ListedItem.list c.items ++ ')' :: c.options) := by simp [text]
  rw [hText]
  generalize ListedItem.list c.items ++ ')' :: c.options = r
  obtain ⟨hParenWord, hParenQuote⟩ := refuses_gap_append (p := exactly '(' ++ empty)
    ((refuses_exactly (by decide)).append _) ((refuses_exactly (by decide)).append _)
  have hParenBlank : (exactly '(' ++ empty).Refuses Text.isBlank := (refuses_exactly (by decide)).append _
  have hHead : ∀ d ∈ (c.nameEnd.text ++ (['('] ++ r)).head?, Text.isWordChar d = false ∧ closesName d = false :=
    head?_gap_append c.nameEnd (d := '(') (by decide) r
  have hParen : (exactly '(').Takes empty ['('] [] r := takes_char (by rfl) _ _
  have hGap : gap.Takes (exactly '(' ++ empty) c.nameEnd.text [] (['('] ++ r) :=
    c.nameEnd.takes (by simp; decide) hParenBlank
  have hName : (Ddl.name 1).Takes (gap ++ (exactly '(' ++ empty)) c.name.text [(1, c.name.name)]
      (c.nameEnd.text ++ (['('] ++ r)) := c.name.takes 1 hParenWord hParenQuote hHead
  have hNot : ∀ last, (blanks ++ keyword "NOT".toList).hits last (c.nameEnd.text ++ (['('] ++ r)) = [] :=
    hits_blanks_append_gap c.nameEnd (by decide : IsKeyword "NOT").refuses_blank (by simp; decide)
      (hits_keyword_eq_nil_of_head (by decide) (by simp; decide))
  have hNameBlank : (Ddl.name 1 ++ (gap ++ (exactly '(' ++ empty))).Refuses Text.isBlank := (refuses_name 1).append _
  have hIf : ifNotExists.Takes (Ddl.name 1 ++ (gap ++ (exactly '(' ++ empty))) (Condition.textOf c.condition) []
      (c.name.text ++ (c.nameEnd.text ++ (['('] ++ r))) := by
    refine Condition.takes c.condition c.name (fun d hd => (hHead d hd).1) hNot hNameBlank fun v b w last t => ?_
    refine hits_name_spelling (by decide) 1 v b hParenWord (fun last => ?_) last
    rw [b.toGap.takes (w.isBlank_head (by decide) t) hParenBlank,
      hits_spelling_of_refuses (by decide) w ((refuses_exactly (by decide)).append _), List.map_nil]
  have hBlanks : blanks.Takes (ifNotExists ++ (Ddl.name 1 ++ (gap ++ (exactly '(' ++ empty)))) c.tableEnd.text []
      (Condition.textOf c.condition ++ (c.name.text ++ (c.nameEnd.text ++ (['('] ++ r)))) :=
    c.tableEnd.takes (Condition.isBlank_head_textOf c.condition (c.name.isSolid.head _))
      (Condition.refuses_ifNotExists hNameBlank)
  have hPhrase := takes_phrase_spellings (by decide) c.create c.createEnd c.table
    (blanks ++ (ifNotExists ++ (Ddl.name 1 ++ (gap ++ (exactly '(' ++ empty)))))
    (c.tableEnd.text ++ (Condition.textOf c.condition ++ (c.name.text ++ (c.nameEnd.text ++ (['('] ++ r)))))
  have hAll : createTableHead.Takes empty _ _ r :=
    ((((hPhrase.append hBlanks).append hIf).append hName).append hGap).append hParen
  rw [hAll.find]
  exact ⟨_, rfl⟩

theorem readTable?_text : readTable? c.text = some c.created := by
  obtain ⟨t, hFind⟩ := c.find_createTableHead
  have hBody := ListedItem.isBody_list c.items
  rw [readTable?, hFind]
  simp only [Option.bind_eq_bind, Option.bind_some]
  rw [Sql.bodyAfterParen_append hBody.closed hBody.balanced, Option.bind_some, ListedItem.items_list]
  rfl

theorem createsIndex_text : createsIndex c.text = false := by
  -- TABLE comes where INDEX would have to
  have hCreate : ∀ t, createIndexPhrase.PassesOver none c.create.text (c.createEnd.text ++ (c.table.text ++ t)) := by
    intro t
    have hEnds := endsIndex_gap c.createEnd.toGap (c.createEnd.isWordChar_head (c.table.text ++ t))
      (c.table.isBlank_head (by decide) t)
      (fun last => c.table.hits_keyword_eq_nil (by decide) (by decide) (by decide) last t)
      fun last => c.table.hits_keyword_eq_nil (by decide) (by decide) (by decide) last t
    exact passesOver_word_of_hits_eq_nil (by decide) (c.create.isWordChar (by decide)) hEnds.word hEnds.create none
  have hTable := fun t last => passesOver_createIndex_spelling (s := c.tableEnd.text ++ t) (by decide) (by decide) c.table
    (c.tableEnd.isWordChar_head t) last
  have hCondition : ∀ last t, createIndexPhrase.PassesOver last (Condition.textOf c.condition) t := fun last t =>
    Condition.passesOver_spellings (by decide) (by decide) afterCreate c.condition last t
  have hName := fun t => c.name.passesOver_createIndex (endsIndex_mark (c := '(') c.nameEnd (by decide) (by decide) t)
  have hParen : ∀ d, Text.isWordChar d = false → ∀ last t, createIndexPhrase.PassesOver last [d] t := fun d hd _ _ =>
    refuses_createIndexPhrase.passesOver (by simpa using hd)
  have hOptions := fun last => c.free.passesOver_createIndex endsIndex_nil last
  have hItems := fun t last => ListedItem.passesOver_createIndex c.items t last
  have hBody : ∀ last, createIndexPhrase.PassesOver last (ListedItem.list c.items ++ ([')'] ++ c.options)) [] :=
    fun last => (hItems _ last).append_append ((hParen ')' (by decide) _ _).append (hOptions _))
  have hAll : createIndexPhrase.PassesOver none c.text [] := by
    refine PassesOver.append_append ?_ ((passesOver_createIndex_gap c.createEnd.toGap _ _).append
      ((hTable _ _).append_append ((passesOver_createIndex_gap c.tableEnd.toGap _ _).append ((hCondition _ _).append
        ((hName _ _).append_append ((passesOver_createIndex_gap c.nameEnd _ _).append
          ((hParen '(' (by decide) _ _).append (hBody _))))))))
    rw [List.append_assoc]
    exact hCreate _
  have hFind := findFrom_append hAll
  rw [List.append_nil] at hFind
  rw [createsIndex, occursIn, find_createIndexShape, find, hFind]
  rfl

/-- A statement for a table creates it, and nothing else. -/
theorem ofStatement_text : SchemaEvent.ofStatement c.text = [.table c.created] := by
  rw [SchemaEvent.ofStatement_eq, readTable?_text, readIndex?_eq_none c.createsIndex_text]
  rfl

/-- The table is the same without the quotes. -/
theorem created_bare : c.bare.created = c.created := by
  rw [created, show c.bare.items = c.items.map ListedItem.bare from rfl, ListedItem.foldl_addItem_bare]
  rfl

end TableText

end SqlSurvey.Ddl
