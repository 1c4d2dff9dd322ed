import SqlSurvey.Proofs.Ddl.Table
import SqlSurvey.Proofs.Sql.Plain

/-!
# The body of a table, item by item

What an item adds to a table does not depend on the items before it, and a body that is put together from
closed texts with commas between falls into the items of these texts. So a table is read part by part.
-/

namespace SqlSurvey

/-! ## Tables put together -/

namespace Table

/-- The table with the columns and keys of another one after its own. -/
def join (t u : Table) : Table :=
  { t with
    columns := t.columns ++ u.columns
    primaryKey := t.primaryKey ++ u.primaryKey
    foreignKeys := t.foreignKeys ++ u.foreignKeys }

theorem join_assoc (t u v : Table) : (t.join u).join v = t.join (u.join v) := by
  simp [join]

@[simp] theorem join_named (t : Table) (name : String) : t.join (named name) = t := by
  simp [join, named]

/-- Tables joined one after the other, seen part by part. -/
theorem foldl_join (t : Table) (us : List Table) :
    us.foldl join t = { t with
      columns := t.columns ++ us.flatMap columns
      primaryKey := t.primaryKey ++ us.flatMap primaryKey
      foreignKeys := t.foreignKeys ++ us.flatMap foreignKeys } := by
  induction us generalizing t with
  | nil => simp
  | cons u us ih => rw [List.foldl_cons, ih]; simp [join]

end Table

/-! ## Texts with commas between -/

namespace Sql

variable {ps qs : List Piece} {a b : List Char}

/-- A comma after balanced pieces separates them from what follows. -/
theorem cutAtCommas_append_of_balanced {depth : Nat} (h : balanced depth ps = true) (qs : List Piece) :
    cutAtCommas depth (ps ++ .plain ',' :: qs) = cutAtCommas depth ps ++ cutAtCommas 0 qs := by
  induction ps generalizing depth with
  | nil =>
    obtain rfl : depth = 0 := by simpa [balanced] using h
    simp [cutAtCommas]
  | cons p ps ih =>
    rw [balanced, Bool.and_eq_true] at h
    by_cases hp : depth = 0 ∧ p = .plain ','
    · -- a comma of the first part, at depth zero
      obtain ⟨rfl, rfl⟩ := hp
      have hRest := ih h.2
      rw [List.cons_append, cutAtCommas, cutAtCommas, if_pos ⟨rfl, rfl⟩, if_pos ⟨rfl, rfl⟩]
      exact congrArg ([] :: ·) hRest
    · obtain ⟨g, gs, hCut⟩ := List.exists_cons_of_ne_nil (cutAtCommas_ne_nil (p.depthAfter depth) ps)
      rw [List.cons_append, cutAtCommas, cutAtCommas, if_neg hp, if_neg hp, ih h.2, hCut]
      rfl

/-- A text that may stand between the parentheses of a definition: every single-quoted run and comment in it
is closed, it does not end inside a line comment, and its parentheses are balanced. -/
structure IsBody (s : List Char) : Prop where
  closed : Closed isSingleQuote s
  balanced : balanced 0 (pieces isSingleQuote s) = true

instance (s : List Char) : Decidable (IsBody s) :=
  decidable_of_iff (Closed isSingleQuote s ∧ balanced 0 (pieces isSingleQuote s) = true)
    ⟨fun h => ⟨h.1, h.2⟩, fun h => ⟨h.1, h.2⟩⟩

theorem isBody_nil : IsBody [] := by decide +kernel

theorem IsBody.pieces_append_comma (h : IsBody a) (b : List Char) :
    pieces isSingleQuote (a ++ ',' :: b) = pieces isSingleQuote a ++ .plain ',' :: pieces isSingleQuote b := by
  have hComma : (Piece.plain ',').Before isSingleQuote b := .plain rfl rfl rfl
  rw [pieces_append h.closed (by simp), ← hComma.pieces_text_append]
  rfl

theorem AllClosed.append_cons (ha : AllClosed ps) {p : Piece} (hb : AllClosed (p :: qs)) :
    AllClosed (ps ++ p :: qs) := by
  refine ⟨fun q hq => ?_, fun q hq => hb.2 q ?_⟩
  · rcases List.mem_append.1 hq with hq | hq
    · exact ha.1 q hq
    · exact hb.1 q hq
  · rwa [List.getLast?_append_of_ne_nil _ (List.cons_ne_nil p qs)] at hq

theorem AllClosed.cons (h : AllClosed qs) {p : Piece} (hClosed : p.isClosed = true) (hLine : p.isLineComment = false) :
    AllClosed (p :: qs) := by
  refine ⟨List.forall_mem_cons.2 ⟨hClosed, h.1⟩, fun q hq => ?_⟩
  cases qs with
  | nil =>
    obtain rfl : p = q := by simpa using hq
    exact hLine
  | cons p qs => exact h.2 q hq

/-- Two bodies with a comma between are a body. -/
theorem IsBody.append_comma (ha : IsBody a) (hb : IsBody b) : IsBody (a ++ ',' :: b) where
  closed := by
    rw [Closed, ha.pieces_append_comma]
    exact ha.closed.append_cons (hb.closed.cons rfl rfl)
  balanced := by
    rw [ha.pieces_append_comma]
    exact balanced_append ha.balanced hb.balanced

/-- The items of two bodies with a comma between are the items of the one and then those of the other. -/
theorem IsBody.items_append_comma (ha : IsBody a) (b : List Char) :
    items (a ++ ',' :: b) = items a ++ items b := by
  rw [items_eq_filter_map, items_eq_filter_map a, items_eq_filter_map b, ha.pieces_append_comma,
    cutAtCommas_append_of_balanced ha.balanced, List.map_append, List.filter_append]

@[simp] theorem items_nil : items [] = [] := by decide +kernel

theorem isBody_intercalate {texts : List (List Char)} (h : ∀ s ∈ texts, IsBody s) :
    IsBody ([','].intercalate texts) := by
  induction texts with
  | nil => exact isBody_nil
  | cons s texts ih =>
    have hs := h s List.mem_cons_self
    have hRest := ih fun u hu => h u (List.mem_cons_of_mem s hu)
    cases texts with
    | nil => simpa using hs
    | cons u texts =>
      rw [List.intercalate_cons_cons, List.append_assoc]
      exact hs.append_comma hRest

/-- Bodies with commas between fall into the items of each. -/
theorem items_intercalate {texts : List (List Char)} (h : ∀ s ∈ texts, IsBody s) :
    items ([','].intercalate texts) = texts.flatMap items := by
  induction texts with
  | nil => simp
  | cons s texts ih =>
    have hs := h s List.mem_cons_self
    have hRest := ih fun u hu => h u (List.mem_cons_of_mem s hu)
    cases texts with
    | nil => simp
    | cons u texts =>
      rw [List.intercalate_cons_cons, List.append_assoc, List.flatMap_cons, ← hRest]
      exact hs.items_append_comma _

end Sql

/-! ## The table that a body declares -/

namespace Ddl

variable {w : List Char} {texts : List (List Char)}

/-- What the items of a body declare, as a table. -/
def declared (name : String) (body : List Char) : Table :=
  (Sql.items body).foldl addItem (Table.named name)

/-- What an item adds to a table is what it adds to a table that has only a name. -/
theorem addItem_eq_join (t : Table) (item : List Char) (name : String) :
    addItem t item = t.join (addItem (Table.named name) item) := by
  unfold addItem
  by_cases hForeign : foreignKeyItem.occursIn item = true
  · rw [if_pos hForeign, if_pos hForeign]
    simp [Table.join, Table.named]
  rw [if_neg hForeign, if_neg hForeign]
  by_cases hPrimary : primaryKeyItem.occursIn item = true
  · rw [if_pos hPrimary, if_pos hPrimary]
    simp [Table.join, Table.named]
  rw [if_neg hPrimary, if_neg hPrimary]
  by_cases hConstraint : constraintItem.occursIn item = true
  · rw [if_pos hConstraint, if_pos hConstraint, Table.join_named]
  rw [if_neg hConstraint, if_neg hConstraint]
  cases readColumn? item with
  | none => exact (Table.join_named t name).symm
  | some column =>
    by_cases hKey : column.isPrimaryKey = true <;> simp [Table.join, Table.named, Table.addColumn, hKey]

theorem foldl_addItem_eq_join (t : Table) (its : List (List Char)) (name : String) :
    its.foldl addItem t = t.join (its.foldl addItem (Table.named name)) := by
  induction its generalizing t with
  | nil => simp
  | cons item its ih =>
    rw [List.foldl_cons, List.foldl_cons, ih, ih (addItem (Table.named name) item),
      addItem_eq_join t item name, Table.join_assoc]

/-- The items of several bodies declare one after the other what each body declares. -/
theorem foldl_addItem_flatMap (name : String) (t : Table) (texts : List (List Char)) :
    (texts.flatMap Sql.items).foldl addItem t = (texts.map (declared name)).foldl Table.join t := by
  induction texts generalizing t with
  | nil => rfl
  | cons s texts ih =>
    rw [List.flatMap_cons, List.foldl_append, ih, foldl_addItem_eq_join t _ name]
    rfl

/-- An item that is passed over: it is no key, and it constrains the table in a way that is not kept, or it
is no column. -/
def isPassedOver (item : List Char) : Bool :=
  !foreignKeyItem.occursIn item && !primaryKeyItem.occursIn item &&
    (constraintItem.occursIn item || (readColumn? item).isNone)

theorem addItem_of_isPassedOver {item : List Char} (h : isPassedOver item = true) (t : Table) :
    addItem t item = t := by
  simp only [isPassedOver, Bool.and_eq_true, Bool.not_eq_true', Bool.or_eq_true, Option.isNone_iff_eq_none] at h
  obtain ⟨⟨hForeign, hPrimary⟩, hRest⟩ := h
  rw [addItem, hForeign, hPrimary, if_neg Bool.false_ne_true, if_neg Bool.false_ne_true]
  by_cases hConstraint : constraintItem.occursIn item = true
  · rw [if_pos hConstraint]
  · rw [if_neg hConstraint, hRest.resolve_left hConstraint]

/-- A text all whose items are passed over, as those of blanks and comments are. -/
def isInert (s : List Char) : Bool := (Sql.items s).all isPassedOver

theorem declared_of_isInert {s : List Char} (h : isInert s = true) (name : String) :
    declared name s = Table.named name := by
  rw [isInert, List.all_eq_true] at h
  unfold declared
  generalize Sql.items s = its at h
  induction its with
  | nil => rfl
  | cons item its ih =>
    rw [List.foldl_cons, addItem_of_isPassedOver (h item List.mem_cons_self),
      ih fun u hu => h u (List.mem_cons_of_mem item hu)]

/-- Inert texts may be left out. -/
theorem foldl_join_filter (name : String) (t : Table) (texts : List (List Char)) :
    ((texts.filter fun s => !isInert s).map (declared name)).foldl Table.join t =
      (texts.map (declared name)).foldl Table.join t := by
  induction texts generalizing t with
  | nil => rfl
  | cons s texts ih =>
    by_cases h : isInert s = true
    · rw [List.filter_cons_of_neg (by simp [h]), ih, List.map_cons, List.foldl_cons, declared_of_isInert h,
        Table.join_named]
    · rw [List.filter_cons_of_pos (by simp [h]), List.map_cons, List.map_cons, List.foldl_cons, ih,
        List.foldl_cons]

/-! ## The statement around the body -/

/-- A statement that creates a table with a body, and a text after it. -/
def tableText (w body tail : List Char) : List Char :=
  "CREATE TABLE ".toList ++ w ++ " (".toList ++ (body ++ ')' :: tail)

theorem tableText_eq (w body tail : List Char) :
    tableText w body tail = "CREATE TABLE ".toList ++ w ++ " (".toList ++ (body ++ ')' :: tail) := rfl

/-- A table is what its body declares; the text after it is not read. -/
theorem readTable?_tableText {body : List Char} (hw : w ≠ []) (hWord : ∀ c ∈ w, Text.isWordChar c = true)
    (hBody : Sql.IsBody body) (tail : List Char) :
    readTable? (tableText w body tail) = some (declared (String.ofList w) body) := by
  rw [readTable?, tableText_eq, find_createTableHead hw hWord]
  simp only [Option.bind_eq_bind, Option.bind_some]
  rw [Sql.bodyAfterParen_append hBody.closed hBody.balanced, Option.bind_some, declared]
  rfl

theorem readTable?_tableText_intercalate (hw : w ≠ []) (hWord : ∀ c ∈ w, Text.isWordChar c = true)
    (hTexts : ∀ s ∈ texts, Sql.IsBody s) (tail : List Char) :
    readTable? (tableText w ([','].intercalate texts) tail) =
      some ((texts.map (declared (String.ofList w))).foldl Table.join (Table.named (String.ofList w))) := by
  rw [readTable?_tableText hw hWord (Sql.isBody_intercalate hTexts), declared, Sql.items_intercalate hTexts,
    foldl_addItem_flatMap]

/-- A table is read part by part: its columns, primary key and foreign keys are those of the tables read from
the single texts, in order. Texts that are blank or passed over may be left out, and the tail may be any. -/
theorem readTable?_parts (w : List Char) (texts : List (List Char)) (tail : List Char) (hw : w ≠ [])
    (hWord : ∀ c ∈ w, Text.isWordChar c = true) (hTexts : ∀ s ∈ texts, Sql.IsBody s) :
    (∃ tables : List Table,
      texts.map (fun s => readTable? (tableText w s [])) = tables.map some ∧
      readTable? (tableText w ([','].intercalate texts) tail) = some {
        name := String.ofList w
        columns := tables.flatMap Table.columns
        primaryKey := tables.flatMap Table.primaryKey
        foreignKeys := tables.flatMap Table.foreignKeys
        indexes := [] }) ∧
    ∀ other, readTable? (tableText w ([','].intercalate texts) tail) =
      readTable? (tableText w ([','].intercalate (texts.filter fun s => !isInert s)) other) := by
  have hAll := readTable?_tableText_intercalate hw hWord hTexts tail
  refine ⟨⟨texts.map (declared (String.ofList w)), ?_, ?_⟩, fun other => ?_⟩
  · simp only [List.map_map, List.map_inj_left, Function.comp_apply]
    exact fun s hs => readTable?_tableText hw hWord (hTexts s hs) []
  · rw [hAll, Table.foldl_join]
    rfl
  · have hSome : ∀ s ∈ texts.filter fun s => !isInert s, Sql.IsBody s := fun s hs =>
      hTexts s (List.mem_of_mem_filter hs)
    rw [hAll, readTable?_tableText_intercalate hw hWord hSome other, foldl_join_filter]

/-- A constraint with a comma and a comment in it, an item without text, and a text after the table. -/
theorem readTable?_parts_unique :
    readTable? "CREATE TABLE t (a INT, UNIQUE (a, b) /* ), */,\n, b TEXT DEFAULT ',') WITHOUT ROWID)".toList =
      readTable? "CREATE TABLE t (a INT, b TEXT DEFAULT ',')".toList := by
  have h := (readTable?_parts ['t']
    ["a INT".toList, " UNIQUE (a, b) /* ), */".toList, ['\n'], " b TEXT DEFAULT ','".toList]
    " WITHOUT ROWID)".toList (by simp) (by decide) (by decide +kernel)).2 []
  have hKept : ["a INT".toList, " UNIQUE (a, b) /* ), */".toList, ['\n'], " b TEXT DEFAULT ','".toList].filter
      (fun s => !isInert s) = ["a INT".toList, " b TEXT DEFAULT ','".toList] := by decide +kernel
  rw [hKept] at h
  simpa [tableText_eq] using h

end Ddl

end SqlSurvey
