import SqlSurvey.Proofs.Ddl.Head
import SqlSurvey.Proofs.Sql.Hollow

/-!
# Tables and what is hidden in comments and strings

The search for the head of a table definition reads comments and single-quoted runs like any other text. A statement has
a head of its own when one shows between them. The statement and the hollow statement both create the table of that
head, or none, exactly when no head begins in what is hidden before it, no comment cuts a head before it, and the
parenthesis that closes behind it shows. Otherwise a comment can create a table, hide one or replace it.
-/

namespace SqlSurvey.Ddl

open Pattern Sql

variable {p : Piece} {ps : List Piece} {a b s t shown : List Char} {h k : Hit}

/-! ## The head that makes a table -/

/-- The first head of a text, if a parenthesis closes behind it. -/
def tableHead? (sql : List Char) : Option Hit :=
  (createTableHead.find sql).filter fun h => decide (')' ∈ h.rest)

theorem tableHead?_eq_some_iff : tableHead? s = some h ↔ createTableHead.find s = some h ∧ ')' ∈ h.rest := by
  rw [tableHead?, Option.filter_eq_some_iff, decide_eq_true_iff]

theorem createdName?_eq (sql : List Char) :
    createdName? sql = (tableHead? sql).map fun h => String.ofList (h.groupText 1) := by
  rw [createdName?, tableHead?]
  cases createTableHead.find sql with
  | none => rfl
  | some h => by_cases hClose : ')' ∈ h.rest <;> simp [hClose, Option.filter]

theorem tableHead?_congr (h : createTableHead.find s = createTableHead.find t) : tableHead? s = tableHead? t := by
  rw [tableHead?, tableHead?, h]

/-- A text in which a head is found goes on: the head is the same one, and makes a table if a parenthesis closes. -/
theorem tableHead?_append (hFind : createTableHead.find a = some h) (b : List Char) :
    tableHead? (a ++ b) = if ')' ∈ h.rest ++ b then some (extend b h) else none := by
  have hLonger : createTableHead.find (a ++ b) = some (extend b h) :=
    findFrom_append_exactly_of_some (q := headBeforeParen) headBeforeParen_avoids_paren hFind b
  rw [tableHead?, hLonger, Option.filter]
  simp [extend]

/-- Whether a head that makes a table begins in the first of two texts. -/
def beginsHead (a b : List Char) : Bool :=
  (tableHead? (a ++ b)).any fun h => decide (b.length < (h.text ++ h.rest).length)

theorem beginsHead_eq_false_iff : beginsHead a b = false ↔
    ∀ h, tableHead? (a ++ b) = some h → (h.text ++ h.rest).length ≤ b.length := by
  rw [beginsHead]
  cases tableHead? (a ++ b) with
  | none => simp
  | some h => simp

/-- If none begins in the first text, the head is that of the second one. -/
theorem tableHead?_of_beginsHead (h : beginsHead a b = false) : tableHead? (a ++ b) = tableHead? b := by
  cases hWhole : tableHead? (a ++ b) with
  | some m =>
    obtain ⟨hFind, hClose⟩ := tableHead?_eq_some_iff.1 hWhole
    have hLater : createTableHead.find b = some m := by
      rw [find, forward_createTableHead.findFrom_eq none (lastOf none a)]
      exact findFrom_of_length_le hFind (beginsHead_eq_false_iff.1 h m hWhole)
    exact (tableHead?_eq_some_iff.2 ⟨hLater, hClose⟩).symm
  | none =>
    cases hLater : tableHead? b with
    | none => rfl
    | some m =>
      -- a head would be found in front of the later one, and closed behind it
      obtain ⟨hFind, hClose⟩ := tableHead?_eq_some_iff.1 hLater
      rw [find, forward_createTableHead.findFrom_eq none (lastOf none a)] at hFind
      obtain ⟨k, hk, hSuffix⟩ := exists_findFrom_append (q := headBeforeParen) headBeforeParen_avoids_paren hFind
      have hSome : tableHead? (a ++ b) = some k := tableHead?_eq_some_iff.2 ⟨hk, hSuffix.subset hClose⟩
      rw [hWhole] at hSome
      cases hSome

/-! ## What is hidden -/

/-- What is hidden begins with one of the marks. -/
theorem hidingMarks_of_isHidden (hBefore : p.Before isAnyQuote t) (h : p.isHidden = true) (s : List Char) :
    ∀ c ∈ (p.text ++ s).head?, hidingMarks.contains c = true := by
  cases hBefore with
  | plain => cases h
  | quoted => simp_all [Piece.isHidden, Piece.text, hidingMarks]
  | openQuoted => simp_all [Piece.isHidden, Piece.text, hidingMarks]
  | line => simp [Piece.text, hidingMarks]
  | block => simp [Piece.text, hidingMarks]
  | openBlock => simp [Piece.text, hidingMarks]

/-- What is left of a hidden piece, a space or two quotes, is passed over. -/
theorem passesOver_hollow (h : p.isHidden = true) (last : Option Char) (t : List Char) :
    createTableHead.PassesOver last p.hollow.text t := by
  refine refuses_createTableHead.passesOver ?_
  cases p with
  | plain c => cases h
  | quoted u =>
    simp only [Piece.isHidden, beq_iff_eq] at h
    simp [Piece.hollow, h, Piece.text]
    decide
  | comment u =>
    simp [Piece.hollow, Piece.text]
    decide

/-- A search that finds nothing in front of a hidden piece goes on with the piece. -/
theorem tableHead?_append_hidden (hBefore : p.Before isAnyQuote (textOf ps)) (h : p.isHidden = true)
    (hNone : createTableHead.find shown = none) :
    tableHead? (shown ++ (p.text ++ textOf ps)) = tableHead? (p.text ++ textOf ps) := by
  refine tableHead?_congr ?_
  rw [find, seam_createTableHead shown (hidingMarks_of_isHidden hBefore h _) none, ← find, hNone, Option.map_none,
    Option.none_or, forward_createTableHead.findFrom_eq _ none, find]

theorem tableHead?_hollow_append (h : p.isHidden = true) (t : List Char) :
    tableHead? (p.hollow.text ++ t) = tableHead? t := by
  refine tableHead?_congr ?_
  rw [find, findFrom_append (passesOver_hollow h none t), forward_createTableHead.findFrom_eq _ none, find]

/-! ## The head that a statement shows -/

/-- The first head that shows among the pieces, with the pieces behind the stretch that it stands in. Before them,
`shown` shows since the last hidden piece. -/
def ownHead? (shown : List Char) : List Piece → Option (Hit × List Piece)
  | [] => (createTableHead.find shown).map fun h => (h, [])
  | p :: ps =>
    if p.isHidden then
      match createTableHead.find shown with
      | some h => some (h, p :: ps)
      | none => ownHead? [] ps
    else ownHead? (shown ++ p.text) ps

/-- Whether nothing hidden makes a difference to the table of the pieces: before the first head that shows, no head begins
in what is hidden and no comment cuts one, and a parenthesis that closes the head shows. -/
def overtFrom (shown : List Char) : List Piece → Bool
  | [] => true
  | p :: ps =>
    if p.isHidden then
      match createTableHead.find shown with
      | some h =>
        decide (')' ∈ h.rest ++ textOf (p :: ps) → ')' ∈ h.rest ++ textOf ((p :: ps).map Piece.hollow))
      | none =>
        !beginsHead p.text (textOf ps) && !beginsHead shown (textOf ((p :: ps).map Piece.hollow)) && overtFrom [] ps
    else overtFrom (shown ++ p.text) ps

/-- Two heads are the one that shows first, with what is hidden behind it and without. -/
def AreOwn (shown : List Char) (ps : List Piece) (h k : Hit) : Prop :=
  ∃ o rs, ownHead? shown ps = some (o, rs) ∧ h = extend (textOf rs) o ∧ k = extend (textOf (rs.map Piece.hollow)) o

/-- A head that shows before a hidden piece is the first one. -/
theorem areOwn_of_find {o : Hit} (h : p.isHidden = true) (hFind : createTableHead.find shown = some o) :
    AreOwn shown (p :: ps) = fun h k =>
      h = extend (textOf (p :: ps)) o ∧ k = extend (textOf ((p :: ps).map Piece.hollow)) o := by
  funext _ _
  simp [AreOwn, ownHead?, h, hFind]

/-- If none does, the first one is behind it. -/
theorem areOwn_of_find_eq_none (h : p.isHidden = true) (hFind : createTableHead.find shown = none) :
    AreOwn shown (p :: ps) = AreOwn [] ps := by
  funext _ _
  rw [AreOwn, AreOwn, ownHead?, if_pos h, hFind]

/-- A piece that is not hidden goes with what shows before it. -/
theorem areOwn_of_not_isHidden (h : p.isHidden = false) : AreOwn shown (p :: ps) = AreOwn (shown ++ p.text) ps := by
  funext _ _
  rw [AreOwn, AreOwn, ownHead?, h, if_neg Bool.false_ne_true]

theorem length_le_of_ownHead? {o : Hit} {rs : List Piece} (hOwn : ownHead? shown ps = some (o, rs)) :
    (o.text ++ (o.rest ++ textOf rs)).length ≤ (shown ++ textOf ps).length ∧
      (o.text ++ (o.rest ++ textOf (rs.map Piece.hollow))).length ≤ (shown ++ textOf (ps.map Piece.hollow)).length := by
  have hFound : ∀ {s}, createTableHead.find s = some o → (o.text ++ o.rest).length ≤ s.length := fun hFind => by
    obtain ⟨u, v, rfl, hHit⟩ := exists_of_findFrom_eq_some hFind
    rw [text_append_rest hHit, List.length_append]
    exact Nat.le_add_left ..
  induction ps generalizing shown with
  | nil =>
    obtain ⟨m, hFind, hEq⟩ := Option.map_eq_some_iff.1 hOwn
    obtain ⟨rfl, rfl⟩ := Prod.mk.inj hEq
    have := hFound hFind
    simp only [List.map_nil, textOf_nil, List.append_nil]
    exact ⟨this, this⟩
  | cons p ps ih =>
    rw [ownHead?] at hOwn
    rw [List.map_cons, textOf_cons, textOf_cons]
    by_cases hHidden : p.isHidden = true
    · rw [if_pos hHidden] at hOwn
      cases hFind : createTableHead.find shown with
      | some m =>
        rw [hFind, Option.some.injEq, Prod.mk.injEq] at hOwn
        obtain ⟨rfl, rfl⟩ := hOwn
        have := hFound hFind
        simp only [List.map_cons, textOf_cons, List.length_append] at this ⊢
        omega
      | none =>
        rw [hFind] at hOwn
        have := ih hOwn
        simp only [List.length_append, List.nil_append] at this ⊢
        omega
    · rw [if_neg hHidden] at hOwn
      rw [Bool.not_eq_true] at hHidden
      have := ih hOwn
      rw [Piece.hollow_of_isHidden hHidden]
      simpa using this

/-- When a head shows in front, both searches find it, and they agree if the parenthesis that closes it shows. -/
theorem rel_tableHead?_of_find {o : Hit} (hFind : createTableHead.find shown = some o) (hMem : ')' ∈ b → ')' ∈ a) :
    (')' ∈ o.rest ++ a → ')' ∈ o.rest ++ b) ↔ Option.Rel (fun h k => h = extend a o ∧ k = extend b o)
      (tableHead? (shown ++ a)) (tableHead? (shown ++ b)) := by
  rw [tableHead?_append hFind, tableHead?_append hFind]
  by_cases hRaw : ')' ∈ o.rest ++ a
  · by_cases hShown : ')' ∈ o.rest ++ b
    · rw [if_pos hRaw, if_pos hShown]
      exact iff_of_true (fun _ => hShown) (.some ⟨rfl, rfl⟩)
    · rw [if_pos hRaw, if_neg hShown]
      exact iff_of_false (fun h => hShown (h hRaw)) nofun
  · have hShown : ')' ∉ o.rest ++ b := fun h => hRaw (List.mem_append.2 ((List.mem_append.1 h).imp_right hMem))
    rw [if_neg hRaw, if_neg hShown]
    exact iff_of_true (fun h => absurd h hRaw) .none

/-- Two searches find related heads, none of which begins in front, exactly when none begins in front and they find
related heads behind. -/
theorem rel_tableHead?_append_iff {R : Hit → Hit → Prop} {a' b' : List Char}
    (hR : ∀ h k, R h k → (h.text ++ h.rest).length ≤ b.length ∧ (k.text ++ k.rest).length ≤ b'.length) :
    Option.Rel R (tableHead? (a ++ b)) (tableHead? (a' ++ b')) ↔
      (beginsHead a b = false ∧ beginsHead a' b' = false) ∧ Option.Rel R (tableHead? b) (tableHead? b') := by
  constructor
  · intro hRel
    have hBegins : beginsHead a b = false ∧ beginsHead a' b' = false := by
      rw [beginsHead_eq_false_iff, beginsHead_eq_false_iff]
      generalize tableHead? (a ++ b) = o at hRel
      generalize tableHead? (a' ++ b') = o' at hRel
      cases hRel with
      | none => simp
      | some hBoth => simpa using hR _ _ hBoth
    rw [tableHead?_of_beginsHead hBegins.1, tableHead?_of_beginsHead hBegins.2] at hRel
    exact ⟨hBegins, hRel⟩
  · rintro ⟨hBegins, hRel⟩
    rwa [tableHead?_of_beginsHead hBegins.1, tableHead?_of_beginsHead hBegins.2]

/-- The check says when both searches find the head that shows first, or none. -/
theorem overtFrom_iff (hLexed : Lexed isAnyQuote ps) (shown : List Char) : overtFrom shown ps = true ↔
    Option.Rel (AreOwn shown ps) (tableHead? (shown ++ textOf ps)) (tableHead? (shown ++ textOf (ps.map Piece.hollow))) := by
  induction ps generalizing shown with
  | nil =>
    refine iff_of_true rfl ?_
    rw [List.map_nil, textOf_nil, List.append_nil]
    cases hHead : tableHead? shown with
    | none => exact .none
    | some h =>
      have hOwn : ownHead? shown [] = some (h, []) := by
        rw [ownHead?, (tableHead?_eq_some_iff.1 hHead).1]
        rfl
      exact .some ⟨h, [], hOwn, by simp [extend], by simp [extend]⟩
  | cons p ps ih =>
    obtain ⟨hBefore, hRest⟩ := hLexed
    by_cases hHidden : p.isHidden = true
    · cases hFind : createTableHead.find shown with
      | some o =>
        rw [overtFrom, if_pos hHidden, hFind, decide_eq_true_iff, areOwn_of_find hHidden hFind]
        exact rel_tableHead?_of_find hFind (mem_of_mem_textOf_hollow (by decide) (by decide))
      | none =>
        have hRaw : tableHead? (shown ++ textOf (p :: ps)) = tableHead? (p.text ++ textOf ps) :=
          tableHead?_append_hidden hBefore hHidden hFind
        have hHollow : tableHead? (textOf ((p :: ps).map Piece.hollow)) = tableHead? (textOf (ps.map Piece.hollow)) :=
          tableHead?_hollow_append hHidden _
        have hNext := ih hRest []
        rw [List.nil_append, List.nil_append] at hNext
        rw [overtFrom, if_pos hHidden, hFind, hRaw, areOwn_of_find_eq_none hHidden hFind, rel_tableHead?_append_iff,
          hHollow, Bool.and_eq_true, Bool.and_eq_true, Bool.not_eq_true', Bool.not_eq_true', hNext]
        -- the head that shows begins behind the piece
        rintro h k ⟨o, rs, hRs, rfl, rfl⟩
        obtain ⟨hLength, hLength'⟩ := length_le_of_ownHead? hRs
        refine ⟨hLength, hLength'.trans ?_⟩
        rw [List.nil_append, List.map_cons, textOf_cons, List.length_append]
        exact Nat.le_add_left ..
    · rw [Bool.not_eq_true] at hHidden
      have hNext := ih hRest (shown ++ p.text)
      rw [List.append_assoc, List.append_assoc] at hNext
      rw [overtFrom, hHidden, if_neg Bool.false_ne_true, hNext, areOwn_of_not_isHidden hHidden, List.map_cons,
        textOf_cons, textOf_cons, Piece.hollow_of_isHidden hHidden]

/-! ## Statements -/

/-- Nothing hidden makes a difference to the table of a statement. -/
def Overt (ps : List Piece) : Prop := overtFrom [] ps = true

instance (ps : List Piece) : Decidable (Overt ps) := inferInstanceAs (Decidable (_ = true))

/-- The statement and the hollow statement both create the table of the first head that shows, or both create none. -/
def KeepsTable (ps : List Piece) : Prop :=
  Option.Rel (AreOwn [] ps) (tableHead? (textOf ps)) (tableHead? (textOf (ps.map Piece.hollow)))

/-- The statement and the hollow statement create tables of one name, be it by two heads. -/
def Namesakes (ps : List Piece) : Prop :=
  ∃ h k, tableHead? (textOf ps) = some h ∧ tableHead? (textOf (ps.map Piece.hollow)) = some k ∧
    h.groupText 1 = k.groupText 1

theorem keepsTable_iff (hLexed : Lexed isAnyQuote ps) : KeepsTable ps ↔ Overt ps :=
  (overtFrom_iff hLexed []).symm

/-- A hollow statement creates a table of the same name exactly when the statement keeps its table, or a namesake stands
in for it. -/
theorem createdName?_hollow_iff (hLexed : Lexed isAnyQuote ps) :
    createdName? (textOf (ps.map Piece.hollow)) = createdName? (textOf ps) ↔ Overt ps ∨ Namesakes ps := by
  rw [← keepsTable_iff hLexed, KeepsTable, Namesakes, createdName?_eq, createdName?_eq]
  generalize tableHead? (textOf ps) = o
  generalize tableHead? (textOf (ps.map Piece.hollow)) = o'
  constructor
  · intro hNames
    cases o with
    | none =>
      obtain rfl : o' = none := Option.map_eq_none_iff.1 hNames
      exact .inl .none
    | some h =>
      obtain ⟨k, rfl, hk⟩ := Option.map_eq_some_iff.1 hNames
      exact .inr ⟨h, k, rfl, rfl, (String.ofList_inj.1 hk).symm⟩
  · rintro (hRel | ⟨h, k, rfl, rfl, hName⟩)
    · cases hRel with
      | none => rfl
      | some hBoth =>
        obtain ⟨o, rs, -, rfl, rfl⟩ := hBoth
        rfl
    · rw [Option.map_some, Option.map_some, hName]

end SqlSurvey.Ddl

namespace SqlSurvey

open SchemaEvent

/-- The tables that a text creates are those that its statements create, blanks at their ends or not. -/
theorem SchemaEvent.createdNames_ofText (f : List Char) :
    createdNames (ofText f) =
      (Sql.segments f).flatMap fun ps => (Ddl.createdName? (Sql.textOf ps)).toList := by
  have hNil : createdNames (ofStatement []) = [] := rfl
  have hEach : ∀ s, createdNames (ofStatement (Text.trim s)) = (Ddl.createdName? s).toList := fun s => by
    rw [Ddl.createdNames_ofStatement, Ddl.createdName?_trim]
  rw [ofText, Sql.statements_eq]
  induction Sql.segments f with
  | nil => rfl
  | cons ps segs ih =>
    rw [List.map_cons, List.flatMap_cons, ← ih, ← hEach]
    cases hText : Text.trim (Sql.textOf ps) with
    | nil => rw [hNil]; rfl
    | cons c r =>
      rw [List.filter_cons_of_pos (by simp), List.flatMap_cons, createdNames_append]

namespace Schema

/-- A statement and the hollow statement create the table of the head that shows first, or none, exactly when nothing
hidden makes a difference to it, and they create tables of one name exactly then or when a namesake stands in. The
tables of a text are those of the hollow text when all its statements are like that. -/
theorem tableNames_afterText_hollow (f : List Char) :
    (∀ ps ∈ Sql.segments f, (Ddl.KeepsTable ps ↔ Ddl.Overt ps) ∧
        ((Ddl.readTable? (Sql.textOf (ps.map Sql.Piece.hollow))).map Table.name =
          (Ddl.readTable? (Sql.textOf ps)).map Table.name ↔ Ddl.Overt ps ∨ Ddl.Namesakes ps)) ∧
      ((∀ ps ∈ Sql.segments f, Ddl.Overt ps ∨ Ddl.Namesakes ps) →
        (empty.afterText (Sql.hollow f)).tableNames = (empty.afterText f).tableNames) := by
  constructor
  · intro ps hps
    have hLexed := Sql.lexed_of_mem_segments hps
    rw [Ddl.map_name_readTable?, Ddl.map_name_readTable?]
    exact ⟨Ddl.keepsTable_iff hLexed, Ddl.createdName?_hollow_iff hLexed⟩
  · intro h
    rw [afterText_eq_afterEvents, afterText_eq_afterEvents, tableNames_afterEvents_empty,
      tableNames_afterEvents_empty, createdNames_ofText, createdNames_ofText, Sql.segments_hollow,
      List.flatMap_map]
    congr 1
    refine List.flatMap_congr fun ps hps => ?_
    rw [(Ddl.createdName?_hollow_iff (Sql.lexed_of_mem_segments hps)).2 (h ps hps)]

/-- Comments before a definition and in it, with a semicolon and a definition of their own, and a string with
parentheses. -/
def logText : List Char :=
  ("-- old (;\nCREATE TABLE log (created_at INT /* CREATE TABLE x (b INT) */, " ++
    "a TEXT DEFAULT ') created (')").toList

/-- None of them makes a difference. -/
theorem tableNames_afterText_hollow_log : (empty.afterText logText).tableNames = ["log"] := by
  have hOvert : ∀ ps ∈ Sql.segments logText, Ddl.Overt ps := by decide +kernel
  rw [← (tableNames_afterText_hollow logText).2 fun ps hps => .inl (hOvert ps hps)]
  decide +kernel

/-- A comment can create a table: every comment is closed, and the text has a table that the hollow text does not
have. -/
theorem tableNames_afterText_comment :
    (∀ p ∈ Sql.pieces Sql.isAnyQuote "SELECT 1 -- CREATE TABLE x (a INT)".toList, p.isClosed = true) ∧
      (empty.afterText "SELECT 1 -- CREATE TABLE x (a INT)".toList).tableNames = ["x"] ∧
      (empty.afterText (Sql.hollow "SELECT 1 -- CREATE TABLE x (a INT)".toList)).tableNames = [] := by
  decide +kernel

end Schema

end SqlSurvey
