import SqlSurvey.Proofs.Query.Symbol

/-!
# The tables of ordinary statements

A statement selects, inserts, updates or deletes. Its tables are named behind `FROM`, `JOIN`, `INTO` and `UPDATE`, and
nothing else stands there but the word `SET` of an update on conflict. So the tables that are found in a text of the
statement are those that the statement names, as long as no other name passes for a keyword.
-/

namespace SqlSurvey.Query

open Pattern

variable {k : Keyword} {x : Symbol} {xs ys : List Symbol} {ts : List Term} {text : List Char}

/-! ## Statements -/

def Mark.comma : Mark := ⟨',', by decide, by decide⟩
def Mark.equals : Mark := ⟨'=', by decide, by decide⟩
def Mark.placeholder : Mark := ⟨'?', by decide, by decide⟩
def Mark.opening : Mark := ⟨'(', by decide, by decide⟩
def Mark.closing : Mark := ⟨')', by decide, by decide⟩

/-- One symbol or more, with commas between them. -/
def separated (x : Symbol) (xs : List Symbol) : List Symbol := x :: xs.flatMap fun y => [.mark .comma, y]

/-- The symbols of a part that may be left out. -/
def optional {α : Type} (symbols : α → List Symbol) : Option α → List Symbol
  | none => []
  | some part => symbols part

@[simp] theorem optional_none {α : Type} (symbols : α → List Symbol) : optional symbols none = [] := rfl

@[simp] theorem optional_some {α : Type} (symbols : α → List Symbol) (part : α) :
    optional symbols (some part) = symbols part := rfl

/-- `c = ?`. -/
def equation (column : Name) : List Symbol := [.name column, .mark .equals, .mark .placeholder]

/-- `JOIN t ON c = d`. -/
structure Join where
  table : Name
  left : Name
  right : Name

def Join.symbols (j : Join) : List Symbol :=
  [.keyword .JOIN, .name j.table, .keyword .ON, .name j.left, .mark .equals, .name j.right]

/-- `ORDER BY c`, also with `DESC`. -/
structure Order where
  column : Name
  descending : Bool

def Order.symbols (o : Order) : List Symbol :=
  [.keyword .ORDER, .keyword .BY, .name o.column] ++ if o.descending then [.keyword .DESC] else []

/-- `(c, …) VALUES (?, …)`, with `n` values after the first. -/
def columnsAndValues (column : Name) (columns : List Name) (n : Nat) : List Symbol :=
  .mark .opening :: separated (.name column) (columns.map .name) ++ .mark .closing :: .keyword .VALUES ::
    .mark .opening :: separated (.mark .placeholder) (List.replicate n (.mark .placeholder)) ++ [.mark .closing]

/-- `WHERE c = ?`. -/
def condition (column : Name) : List Symbol := .keyword .WHERE :: equation column

/-- `ON CONFLICT (c) DO UPDATE SET d = ?`. -/
structure Conflict where
  column : Name
  updated : Name

def Conflict.symbols (c : Conflict) : List Symbol :=
  [.keyword .ON, .keyword .CONFLICT, .mark .opening, .name c.column, .mark .closing, .keyword .DO, .keyword .UPDATE,
    .keyword .SET] ++ equation c.updated

/-- A statement on tables. Lists of columns and of values have a first member and others. -/
inductive Statement where
  /-- `SELECT c, … FROM t JOIN … WHERE … ORDER BY …`. -/
  | select (column : Name) (columns : List Name) (table : Name) (joins : List Join) (where? : Option Name)
      (order? : Option Order)
  /-- `INSERT OR w INTO t (c, …) VALUES (?, …) ON CONFLICT …`. -/
  | insert (orWord? : Option Word) (table column : Name) (columns : List Name) (values : Nat)
      (conflict? : Option Conflict)
  /-- `UPDATE t SET c = ? WHERE …`. -/
  | update (table column : Name) (where? : Option Name)
  /-- `DELETE FROM t WHERE …`. -/
  | delete (table : Name) (where? : Option Name)

namespace Statement

/-- The symbols of a statement, in order. -/
def symbols : Statement → List Symbol
  | select column columns table joins where? order? =>
    .keyword .SELECT :: separated (.name column) (columns.map .name) ++ .keyword .FROM :: .name table ::
      (joins.flatMap Join.symbols ++ optional condition where? ++ optional Order.symbols order?)
  | insert orWord? table column columns values conflict? =>
    .keyword .INSERT :: optional (fun w => [.keyword .OR, .word w]) orWord? ++ .keyword .INTO :: .name table ::
      (columnsAndValues column columns values ++ optional Conflict.symbols conflict?)
  | update table column where? =>
    .keyword .UPDATE :: .name table :: .keyword .SET :: equation column ++ optional condition where?
  | delete table where? => .keyword .DELETE :: .keyword .FROM :: .name table :: optional condition where?

/-- The names of the tables, in the order of the statement. -/
def tables : Statement → List Name
  | select _ _ table joins _ _ => table :: joins.map Join.table
  | insert _ table _ _ _ _ => [table]
  | update table _ _ => [table]
  | delete table _ => [table]

/-- The statement updates what is there already. -/
def updatesOnConflict : Statement → Bool
  | insert _ _ _ _ _ conflict? => conflict?.isSome
  | _ => false

/-- No name passes for a keyword before tables: one that ends in such a keyword and has a word behind it stands for a
table behind this keyword. -/
def clear (s : Statement) : Bool := [Keyword.FROM, .JOIN, .UPDATE].all fun k => isClear k s.symbols

end Statement

/-! ## What stands behind the keywords of a statement -/

/-- Symbols that are passed over each are passed over in a list with commas. -/
theorem after_separated (hx : ∀ zs, after k (x :: zs) = after k zs)
    (hxs : ∀ y ∈ xs, ∀ zs, after k (y :: zs) = after k zs) :
    after k (separated x xs ++ ys) = after k ys := by
  rw [separated, List.cons_append, hx]
  induction xs with
  | nil => rfl
  | cons y xs ih =>
    rw [List.flatMap_cons, List.append_assoc, List.cons_append, List.cons_append, after_mark, List.nil_append,
      hxs y List.mem_cons_self]
    exact ih fun z hz => hxs z (List.mem_cons_of_mem y hz)

/-- Columns are passed over. -/
theorem after_columns (c : Name) (cs : List Name) (ys : List Symbol) :
    after k (separated (.name c) (cs.map .name) ++ ys) = after k ys :=
  after_separated (fun _ => after_word _) (List.forall_mem_map.2 fun _ _ _ => after_word _)

/-- Columns and values are passed over. -/
theorem after_columnsAndValues (hk : .VALUES ≠ k) (c : Name) (cs : List Name) (n : Nat) (ys : List Symbol) :
    after k (columnsAndValues c cs n ++ ys) = after k ys := by
  have hValues : ∀ zs, after k (separated (.mark .placeholder) (List.replicate n (.mark .placeholder)) ++ zs) =
      after k zs := fun zs =>
    after_separated (fun _ => after_mark _) fun y hy _ => by rw [List.eq_of_mem_replicate hy, after_mark]
  simp [columnsAndValues, after_columns, hValues, hk]

theorem after_joins (js : List Join) (ys : List Symbol) :
    after .JOIN (js.flatMap Join.symbols ++ ys) = js.map (.name ·.table) ++ after .JOIN ys := by
  induction js with
  | nil => rfl
  | cons j js ih => simp [Join.symbols, ih]

theorem after_joins_of_ne (hJoin : .JOIN ≠ k) (hOn : .ON ≠ k) (js : List Join) (ys : List Symbol) :
    after k (js.flatMap Join.symbols ++ ys) = after k ys := by
  induction js with
  | nil => rfl
  | cons j js ih => simp [Join.symbols, ih, hJoin, hOn]

theorem after_condition (hk : .WHERE ≠ k) (w? : Option Name) (ys : List Symbol) :
    after k (optional condition w? ++ ys) = after k ys := by
  cases w? <;> simp [condition, equation, hk]

theorem after_order (hOrder : .ORDER ≠ k) (hBy : .BY ≠ k) (hDesc : .DESC ≠ k) (o? : Option Order) :
    after k (optional Order.symbols o?) = [] := by
  cases o? with
  | none => rfl
  | some o => cases hDescending : o.descending <;> simp [Order.symbols, hDescending, hOrder, hBy, hDesc]

namespace Statement

theorem after_select (c : Name) (cs : List Name) (t : Name) (js : List Join) (w? : Option Name) (o? : Option Order) :
    after .FROM (select c cs t js w? o?).symbols = [.name t] ∧
      after .JOIN (select c cs t js w? o?).symbols = js.map (.name ·.table) ∧
      after .UPDATE (select c cs t js w? o?).symbols = [] := by
  simp [symbols, after_columns, after_joins, after_joins_of_ne, after_condition, after_order]

theorem after_conflict (c? : Option Conflict) :
    after .FROM (optional Conflict.symbols c?) = [] ∧ after .JOIN (optional Conflict.symbols c?) = [] ∧
      after .UPDATE (optional Conflict.symbols c?) = if c?.isSome then [.keyword .SET] else [] := by
  cases c? <;> simp [Conflict.symbols, equation]

theorem after_insert (w? : Option Word) (t c : Name) (cs : List Name) (n : Nat) (c? : Option Conflict) :
    after .FROM (insert w? t c cs n c?).symbols = [] ∧ after .JOIN (insert w? t c cs n c?).symbols = [] ∧
      after .UPDATE (insert w? t c cs n c?).symbols = if c?.isSome then [.keyword .SET] else [] := by
  cases w? <;> simp [symbols, after_columnsAndValues, after_conflict]

theorem after_update (t c : Name) (w? : Option Name) :
    after .FROM (update t c w?).symbols = [] ∧ after .JOIN (update t c w?).symbols = [] ∧
      after .UPDATE (update t c w?).symbols = [.name t] := by
  cases w? <;> simp [symbols, condition, equation]

theorem after_delete (t : Name) (w? : Option Name) :
    after .FROM (delete t w?).symbols = [.name t] ∧ after .JOIN (delete t w?).symbols = [] ∧
      after .UPDATE (delete t w?).symbols = [] := by
  cases w? <;> simp [symbols, condition, equation]

end Statement

theorem forall_mem_separated {P : Symbol → Prop} (hComma : P (.mark .comma)) (hx : P x) (hxs : ∀ y ∈ xs, P y) :
    ∀ y ∈ separated x xs, P y := by
  intro y hy
  rcases List.mem_cons.1 hy with rfl | hy
  · exact hx
  · obtain ⟨z, hz, hy⟩ := List.mem_flatMap.1 hy
    rcases List.mem_cons.1 hy with rfl | hy
    · exact hComma
    · exact List.mem_singleton.1 hy ▸ hxs z hz

theorem avoids_columns (k : Keyword) (c : Name) (cs : List Name) :
    ∀ y ∈ separated (.name c) (cs.map .name), y.Avoids k :=
  forall_mem_separated (avoids_mark k _) (avoids_name k c) (List.forall_mem_map.2 fun n _ => avoids_name k n)

theorem avoids_columnsAndValues (hk : .VALUES ≠ k) (c : Name) (cs : List Name) (n : Nat) :
    ∀ y ∈ columnsAndValues c cs n, y.Avoids k := by
  have hValues : ∀ y ∈ separated (.mark .placeholder) (List.replicate n (.mark .placeholder)), y.Avoids k :=
    forall_mem_separated (avoids_mark k _) (avoids_mark k _) fun _ hy => List.eq_of_mem_replicate hy ▸ avoids_mark k _
  simp only [columnsAndValues, List.forall_mem_append, List.forall_mem_cons]
  exact ⟨⟨⟨avoids_mark k _, avoids_columns k c cs⟩, avoids_mark k _, avoids_keyword hk, avoids_mark k _, hValues⟩,
    avoids_mark k _, by simp⟩

theorem avoids_condition (hk : .WHERE ≠ k) (w? : Option Name) :
    ∀ y ∈ optional condition w?, y.Avoids k := by
  cases w? <;> simp [condition, equation, avoids_name, avoids_mark, avoids_keyword, hk]

namespace Statement

theorem avoids_conflict (c? : Option Conflict) : ∀ y ∈ optional Conflict.symbols c?, y.Avoids .INTO := by
  cases c? <;> simp [Conflict.symbols, equation, avoids_name, avoids_mark, avoids_keyword]

/-- Without an insertion there is no `INTO`. -/
theorem avoids_select (c : Name) (cs : List Name) (t : Name) (js : List Join) (w? : Option Name) (o? : Option Order) :
    ∀ y ∈ (select c cs t js w? o?).symbols, y.Avoids .INTO := by
  have hOrder : ∀ y ∈ optional Order.symbols o?, y.Avoids .INTO := by
    cases o? with
    | none => simp
    | some o => cases h : o.descending <;> simp [Order.symbols, h, avoids_name, avoids_keyword]
  have hJoin : ∀ j : Join, ∀ y ∈ j.symbols, y.Avoids .INTO := fun j => by
    simp [Join.symbols, avoids_name, avoids_mark, avoids_keyword]
  have hJoins : ∀ y ∈ js.flatMap Join.symbols, y.Avoids .INTO := fun y hy => by
    obtain ⟨j, -, hy⟩ := List.mem_flatMap.1 hy
    exact hJoin j y hy
  simp only [symbols, List.forall_mem_append, List.forall_mem_cons]
  exact ⟨⟨avoids_keyword (by simp), avoids_columns _ c cs⟩, avoids_keyword (by simp), avoids_name _ t,
    ⟨hJoins, avoids_condition (by simp) w?⟩, hOrder⟩

theorem avoids_update (t c : Name) (w? : Option Name) : ∀ y ∈ (update t c w?).symbols, y.Avoids .INTO := by
  simpa [symbols, equation, avoids_name, avoids_mark, avoids_keyword] using avoids_condition (k := .INTO) (by simp) w?

theorem avoids_delete (t : Name) (w? : Option Name) : ∀ y ∈ (delete t w?).symbols, y.Avoids .INTO := by
  simpa [symbols, avoids_name, avoids_keyword] using avoids_condition (k := .INTO) (by simp) w?

/-- What the statement inserts into. -/
def insertions : Statement → List Symbol
  | insert _ table _ _ _ _ => [.name table]
  | _ => []

/-- An insertion is found where it stands, and no other one behind it. -/
theorem found_insertion_insert {w? : Option Word} {t c : Name} {cs : List Name} {n : Nat} {c? : Option Conflict}
    (h : List.Forall₂ Symbol.Written (insert w? t c cs n c?).symbols ts) :
    found Keyword.INSERT.letters Reader.insertion 0 ts = [t.toWord] := by
  have hAvoids : ∀ y ∈ columnsAndValues c cs n ++ optional Conflict.symbols c?, y.Avoids .INTO :=
    List.forall_mem_append.2 ⟨avoids_columnsAndValues (by simp) c cs n, avoids_conflict c?⟩
  cases w? with
  | none =>
    simp only [symbols, optional_none, List.cons_append, List.nil_append] at h
    rcases h with _ | ⟨⟨_, w, hw⟩, _ | ⟨⟨_, v, hv⟩, _ | ⟨⟨⟩, hRest⟩⟩⟩
    rw [found_cons_of_some (Reader.behind_eq_some_iff.2 ⟨w, _, rfl, endsIn_of_spells hw, insertion_into hv⟩)]
    exact congrArg (t.toWord :: ·) (found_insertion_eq_nil hRest hAvoids)
  | some u =>
    simp only [symbols, optional_some, List.cons_append, List.nil_append] at h
    rcases h with _ | ⟨⟨_, w, hw⟩, _ | ⟨⟨_, x, hx⟩, _ | ⟨⟨⟩, _ | ⟨⟨_, v, hv⟩, _ | ⟨⟨⟩, hRest⟩⟩⟩⟩⟩
    rw [found_cons_of_some (Reader.behind_eq_some_iff.2 ⟨w, _, rfl, endsIn_of_spells hw, insertion_or hx hv⟩)]
    exact congrArg (t.toWord :: ·) (found_insertion_eq_nil hRest hAvoids)

theorem forall₂_insertions (s : Statement) (h : List.Forall₂ Symbol.Written s.symbols ts) :
    List.Forall₂ Symbol.Written s.insertions ((found Keyword.INSERT.letters Reader.insertion 0 ts).map .word) := by
  cases s with
  | select c cs t js w? o? =>
    rw [found_insertion_eq_nil h (avoids_select c cs t js w? o?)]
    exact .nil
  | insert w? t c cs n c? =>
    rw [found_insertion_insert h]
    exact .cons (.word _) .nil
  | update t c w? =>
    rw [found_insertion_eq_nil h (avoids_update t c w?)]
    exact .nil
  | delete t w? =>
    rw [found_insertion_eq_nil h (avoids_delete t w?)]
    exact .nil

/-- The tables of a statement, and behind them what stands behind `UPDATE` in an update on conflict. -/
def reported (s : Statement) : List Symbol :=
  s.tables.map .name ++ if s.updatesOnConflict then [.keyword .SET] else []

theorem after_symbols (s : Statement) :
    after .FROM s.symbols ++ after .JOIN s.symbols ++ s.insertions ++ after .UPDATE s.symbols = s.reported := by
  cases s with
  | select c cs t js w? o? => simp [after_select, insertions, reported, tables, updatesOnConflict]
  | insert w? t c cs n c? => cases c? <;> simp [after_insert, insertions, reported, tables, updatesOnConflict]
  | update t c w? => simp [after_update, insertions, reported, tables, updatesOnConflict]
  | delete t w? => simp [after_delete, insertions, reported, tables, updatesOnConflict]

end Statement

/-! ## The tables that are found -/

namespace Statement

/-- What is found in a text of the statement are the words of the text for the symbols that are reported. -/
theorem exists_reported (s : Statement) (hClear : s.clear = true) (h : Writes s.symbols text) :
    ∃ ws : List Word, List.Forall₂ Symbol.Written s.reported (ws.map .word) ∧
      Query.tables text = distinct (ws.map Word.text) := by
  obtain ⟨ts, hTerms, hLaid⟩ := h
  obtain ⟨hFrom, hJoin, hUpdate⟩ : isClear .FROM s.symbols = true ∧ isClear .JOIN s.symbols = true ∧
      isClear .UPDATE s.symbols = true := by simpa [clear] using hClear
  refine ⟨_, ?_, tables_of_laid hLaid⟩
  rw [← after_symbols, List.map_append, List.map_append, List.map_append]
  exact List.rel_append (List.rel_append (List.rel_append (forall₂_found hTerms hFrom) (forall₂_found hTerms hJoin))
    (s.forall₂_insertions hTerms)) (forall₂_found hTerms hUpdate)

/-- In a text of a statement the tables are found that the statement names, in order and each once. An update on
conflict names none, but the word that stands for its `SET` is found behind them. -/
theorem tables_of_writes (s : Statement) (hClear : s.clear = true) (h : Writes s.symbols text) :
    (s.updatesOnConflict = false → Query.tables text = distinct (s.tables.map fun t => t.text)) ∧
      (s.updatesOnConflict = true → ∃ w, Spells Keyword.SET.letters w ∧
        Query.tables text = distinct (s.tables.map (fun t => t.text) ++ [w])) := by
  obtain ⟨ws, hWritten, hTables⟩ := s.exists_reported hClear h
  have hNames : s.tables.map Symbol.name = (s.tables.map Name.toWord).map .word := by rw [List.map_map]; rfl
  constructor
  · intro hNone
    rw [reported, hNone, if_neg Bool.false_ne_true, List.append_nil, hNames] at hWritten
    rw [hTables, eq_of_forall₂_written hWritten, List.map_map]
    rfl
  · intro hUpdates
    rw [reported, hUpdates, if_pos rfl, List.forall₂_map_right_iff] at hWritten
    cases s with
    | insert w? t c cs n c? =>
      match ws, hWritten, hTables with
      | [_, w], .cons (.word _) (.cons (.keyword _ _ hSet) .nil), hTables => exact ⟨w.text, hSet, hTables⟩
    | select c cs t js w? o? => exact absurd hUpdates Bool.false_ne_true
    | update t c w? => exact absurd hUpdates Bool.false_ne_true
    | delete t w? => exact absurd hUpdates Bool.false_ne_true

open Name (ofString) in
/-- A selection with columns whose names end in keywords. -/
def films : Statement :=
  select (ofString "last_update" (by decide +kernel)) [ofString "id" (by decide +kernel)]
    (ofString "film" (by decide +kernel))
    [⟨ofString "actor" (by decide +kernel), ofString "valid_from" (by decide +kernel),
      ofString "id" (by decide +kernel)⟩]
    (some (ofString "valid_from" (by decide +kernel))) none

theorem tables_of_writes_films : Query.tables
    "SELECT last_update , id FROM film JOIN actor ON valid_from = id WHERE valid_from = ? ".toList =
      ["film".toList, "actor".toList] := by
  have hText : plainText films.symbols =
      "SELECT last_update , id FROM film JOIN actor ON valid_from = id WHERE valid_from = ? ".toList := by
    decide +kernel
  rw [← hText, (films.tables_of_writes (by decide +kernel) (writes_plainText films.symbols)).1 rfl]
  decide +kernel

open Name (ofString) in
/-- An insertion that updates on conflict. -/
def upsert : Statement :=
  insert none (ofString "t" (by decide +kernel)) (ofString "a" (by decide +kernel)) [] 0
    (some ⟨ofString "a" (by decide +kernel), ofString "a" (by decide +kernel)⟩)

open Name (ofString) in
/-- A selection of a column whose name ends in `FROM`. -/
def validFrom : Statement :=
  select (ofString "valid_from" (by decide +kernel)) [] (ofString "t" (by decide +kernel)) [] none none

/-- The tables that are found are not always those of the statement: an update on conflict adds `SET`, and a column
that passes for `FROM` has the keyword itself taken for a table. -/
theorem tables_upsert_validFrom :
    (Writes upsert.symbols "INSERT INTO t ( a ) VALUES ( ? ) ON CONFLICT ( a ) DO UPDATE SET a = ? ".toList ∧
      upsert.tables.map (fun t => t.text) = ["t".toList] ∧
      Query.tables "INSERT INTO t ( a ) VALUES ( ? ) ON CONFLICT ( a ) DO UPDATE SET a = ? ".toList =
        ["t".toList, "SET".toList]) ∧
    Writes validFrom.symbols "SELECT valid_from FROM t ".toList ∧
      validFrom.tables.map (fun t => t.text) = ["t".toList] ∧
      Query.tables "SELECT valid_from FROM t ".toList = ["FROM".toList] := by
  have hUpsert : plainText upsert.symbols =
      "INSERT INTO t ( a ) VALUES ( ? ) ON CONFLICT ( a ) DO UPDATE SET a = ? ".toList := by decide +kernel
  have hValid : plainText validFrom.symbols = "SELECT valid_from FROM t ".toList := by decide +kernel
  refine ⟨⟨hUpsert ▸ writes_plainText _, by decide +kernel, by decide +kernel⟩, hValid ▸ writes_plainText _,
    by decide +kernel, by decide +kernel⟩

end Statement

end SqlSurvey.Query
