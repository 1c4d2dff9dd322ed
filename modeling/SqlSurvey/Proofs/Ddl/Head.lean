import SqlSurvey.Proofs.Schema.Shapes
import SqlSurvey.Proofs.Ddl.Column
import SqlSurvey.Proofs.Pattern.Seam
import SqlSurvey.Proofs.Schema.Events

/-!
# The head of a statement that creates a table

A statement creates a table of some name when the head is found in it and a closing parenthesis follows.
The head takes no dash, slash or single quote and ends with its only parenthesis, so a search for it sees
a seam before a comment or a single-quoted run and after each opening parenthesis.
-/

namespace SqlSurvey.Ddl

open Pattern

variable {a b s : List Char} {last : Option Char}

/-! ## What the head takes -/

/-- The head up to the parenthesis. -/
def headBeforeParen : Pattern := phrase "CREATE" ["TABLE"] ++ blanks ++ ifNotExists ++ name 1 ++ gap

/-- The characters that begin a comment or a single-quoted run. -/
def hidingMarks : List Char := ['-', '/', '\'']

theorem forward_createTableHead : createTableHead.Forward := by
  have hPhrase : ∀ first second, (phrase first [second]).Forward := fun _ _ =>
    ⟨⟨forward_keyword _, trivial⟩, forward_keyword _⟩
  have hName : (name 1).Forward := ⟨⟨⟨trivial, trivial⟩, trivial⟩, trivial, trivial⟩
  have hIf : ifNotExists.Forward := ⟨⟨⟨⟨hPhrase "IF" "NOT", trivial⟩, forward_keyword _⟩, trivial⟩, trivial⟩
  exact ⟨⟨⟨⟨⟨hPhrase _ _, trivial⟩, hIf⟩, hName⟩, trivial, trivial⟩, trivial⟩

theorem avoids_headBeforeParen : headBeforeParen.Avoids fun c => ('(' :: hidingMarks).contains c := by
  have hClass : ∀ {B : Char → Bool}, (∀ d ∈ '(' :: hidingMarks, B d = false) →
      ∀ c, ('(' :: hidingMarks).contains c = true → B c = false := fun hB c hc =>
    hB c (List.contains_iff_mem.1 hc)
  have hWord : ∀ word ∈ ["CREATE", "TABLE", "IF", "NOT", "EXISTS"],
      (keyword word.toList).Avoids fun c => ('(' :: hidingMarks).contains c := by
    have hLetters : ∀ word ∈ ["CREATE", "TABLE", "IF", "NOT", "EXISTS"], ∀ l ∈ word.toList,
        ∀ d ∈ '(' :: hidingMarks, Text.sameLetter l d = false := by decide
    exact fun word hMem => avoids_keyword fun l hl => hClass (hLetters word hMem l hl)
  have hBlanks : blanks.Avoids fun c => ('(' :: hidingMarks).contains c := hClass (by decide)
  have hIf : ifNotExists.Avoids fun c => ('(' :: hidingMarks).contains c :=
    ⟨⟨⟨⟨⟨⟨hWord "IF" (by decide), hBlanks⟩, hWord "NOT" (by decide)⟩, hBlanks⟩, hWord "EXISTS" (by decide)⟩,
      hBlanks⟩, trivial⟩
  have hName : (name 1).Avoids fun c => ('(' :: hidingMarks).contains c :=
    ⟨⟨⟨hClass (by decide), trivial⟩, hClass (by decide)⟩, hClass (by decide), trivial⟩
  exact ⟨⟨⟨⟨⟨⟨hWord "CREATE" (by decide), hBlanks⟩, hWord "TABLE" (by decide)⟩, hBlanks⟩, hIf⟩, hName⟩,
    hBlanks, trivial⟩

theorem headBeforeParen_avoids_paren : headBeforeParen.Avoids fun c => c == '(' :=
  avoids_headBeforeParen.mono fun c hc => by simpa using .inl (by simpa using hc)

theorem avoids_createTableHead : createTableHead.Avoids fun c => hidingMarks.contains c := by
  refine ⟨avoids_headBeforeParen.mono fun c hc => ?_, fun c hc => ?_⟩
  · rw [List.contains_cons, hc, Bool.or_true]
  · rw [beq_eq_false_iff_ne]
    rintro rfl
    exact absurd hc (by decide)

/-- The head begins with a letter. -/
theorem refuses_createTableHead : createTableHead.Refuses fun c => !Text.isWordChar c := by
  have hCreate : (keyword "CREATE".toList).Refuses fun c => !Text.isWordChar c := by
    refine refuses_keyword (l := 'C') fun c hc => ?_
    rw [← Bool.not_eq_true]
    intro hSame
    rw [Text.isWordChar_of_sameLetter (by decide) hSame] at hc
    exact absurd hc (by decide)
  exact ((((((hCreate.append _).append _).append _).append _).append _).append _).append _

/-! ## Seams of a search for the head -/

/-- Nothing of the head stands on both sides of the beginning of a comment or a single-quoted run. -/
theorem seam_createTableHead (a : List Char) (hb : ∀ c ∈ b.head?, hidingMarks.contains c = true) :
    createTableHead.Seam a b := seam_of_avoids avoids_createTableHead a hb

/-- Nothing of the head stands in a text without opening parentheses. -/
theorem seam_createTableHead_of_not_mem (hb : '(' ∉ b) (a : List Char) : createTableHead.Seam a b := by
  have ha : '(' ∉ a.rtakeWhile (· != '(') := fun hMem => by
    simpa using List.mem_rtakeWhile_imp hMem
  exact seam_of_rtakeWhile headBeforeParen_avoids_paren (seam_of_not_mem _ ha hb)

/-! ## The name of the table that a statement creates -/

/-- The name in the head, if a closing parenthesis follows. -/
def createdName? (sql : List Char) : Option String :=
  (createTableHead.find sql).bind fun h =>
    if ')' ∈ h.rest then some (String.ofList (h.groupText 1)) else none

@[simp] theorem name_addItem (t : Table) (item : List Char) : (addItem t item).name = t.name := by
  unfold addItem
  by_cases hForeign : foreignKeyItem.occursIn item = true
  · rw [if_pos hForeign]
  rw [if_neg hForeign]
  by_cases hPrimary : primaryKeyItem.occursIn item = true
  · rw [if_pos hPrimary]
  rw [if_neg hPrimary]
  by_cases hConstraint : constraintItem.occursIn item = true
  · rw [if_pos hConstraint]
  rw [if_neg hConstraint]
  cases readColumn? item <;> rfl

theorem name_foldl_addItem (t : Table) (its : List (List Char)) : (its.foldl addItem t).name = t.name := by
  induction its generalizing t with
  | nil => rfl
  | cons item its ih => rw [List.foldl_cons, ih, name_addItem]

theorem exists_closedBody {depth : Nat} {ps qs : List Sql.Piece} (h : Sql.closedBody depth ps = some qs) :
    .plain ')' ∈ ps := by
  induction ps generalizing depth qs with
  | nil => simp [Sql.closedBody] at h
  | cons p ps ih =>
    rw [Sql.closedBody] at h
    by_cases hp : depth = 0 ∧ p = .plain ')'
    · rw [hp.2]
      exact List.mem_cons_self
    · rw [if_neg hp, Option.map_eq_some_iff] at h
      obtain ⟨rs, hrs, -⟩ := h
      exact List.mem_cons_of_mem p (ih hrs)

/-- There is a body when there is a closing parenthesis. -/
theorem isSome_bodyAfterParen (s : List Char) : (Sql.bodyAfterParen s).isSome = true ↔ ')' ∈ s := by
  constructor
  · intro h
    by_contra hMem
    have hNone : Sql.beforeLast ')' s = none := by simp [Sql.beforeLast, hMem]
    rw [Sql.bodyAfterParen, hNone, Option.or_none, Option.isSome_map] at h
    obtain ⟨qs, hqs⟩ := Option.isSome_iff_exists.1 h
    apply hMem
    rw [← Sql.textOf_pieces Sql.isSingleQuote s, Sql.textOf, List.mem_flatMap]
    exact ⟨_, exists_closedBody hqs, List.mem_singleton_self _⟩
  · intro h
    simp [Sql.bodyAfterParen, Sql.beforeLast, h]

theorem map_name_readTable? (sql : List Char) : (readTable? sql).map Table.name = createdName? sql := by
  unfold readTable? createdName?
  cases createTableHead.find sql with
  | none => rfl
  | some h =>
    have hBody := isSome_bodyAfterParen h.rest
    simp only [Option.bind_eq_bind, Option.bind_some]
    cases hRest : Sql.bodyAfterParen h.rest with
    | none => simp_all
    | some body => simp_all [name_foldl_addItem, Table.named]

/-- A statement creates the table whose name its head gives. -/
theorem createdNames_ofStatement (sql : List Char) :
    SchemaEvent.createdNames (SchemaEvent.ofStatement sql) = (createdName? sql).toList := by
  rw [SchemaEvent.ofStatement_eq, SchemaEvent.createdNames_append, ← map_name_readTable?]
  cases readTable? sql <;> cases readIndex? sql <;> rfl

/-- Blanks at the ends make no difference to the name. -/
theorem createdName?_trim (s : List Char) : createdName? (Text.trim s) = createdName? s := by
  obtain ⟨l, r, hs, hl, hr⟩ := Text.exists_eq_append_trim s
  have hLeft : createTableHead.PassesOver none l (Text.trim s ++ r) :=
    refuses_createTableHead.passesOver fun c hc => by simp [Text.isWordChar_of_isBlank (hl c hc)]
  have hNoParen : '(' ∉ r := fun hMem => absurd (hr _ hMem) (by decide)
  have hRight : ∀ last, createTableHead.findFrom last r = none := fun last =>
    findFrom_append_exactly_of_not_mem headBeforeParen last hNoParen
  have hFind : createTableHead.find s = (createTableHead.find (Text.trim s)).map (extend r) := by
    conv_lhs => rw [hs, find, List.append_assoc, findFrom_append hLeft]
    rw [forward_createTableHead.findFrom_eq _ none, seam_createTableHead_of_not_mem hNoParen _ none, hRight,
      Option.or_none]
    rfl
  have hClose : ')' ∉ r := fun hMem => absurd (hr _ hMem) (by decide)
  rw [createdName?, createdName?, hFind]
  cases createTableHead.find (Text.trim s) with
  | none => rfl
  | some h => simp [extend, hClose, Hit.groupText, Hit.group?]

end SqlSurvey.Ddl
