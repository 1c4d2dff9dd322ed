import SqlSurvey.Proofs.Ddl.ClosedDefault
import SqlSurvey.Proofs.Ddl.ConstraintOrder
import SqlSurvey.Proofs.Ddl.FreeText

/-!
# Columns whatever the quotes of their names are

A column is written as its name, a type word, any text of constraints, and perhaps a reference with more constraints
behind it. What it adds to its table is the same when the names are written without quotes.
-/

namespace SqlSurvey.Ddl

open Pattern

variable {p : Pattern} {s : List Char}

/-! ## Columns as they are written -/

/-- A reference with the constraints behind it. -/
structure ColumnReference extends WrittenReference where
  clauses : List Char
  free : IsFree clauses

namespace ColumnReference

/-- The same reference without quotes. -/
def bare (r : ColumnReference) : ColumnReference := { r with toWrittenReference := r.toWrittenReference.bare }

/-- The blanks before a reference, if there is one. -/
def startOf : Option ColumnReference → List Char
  | none => []
  | some r => r.start.text

/-- The text of a reference and of what is behind it, if there is one. -/
def textOf : Option ColumnReference → List Char
  | none => []
  | some r => r.toWrittenReference.text ++ r.clauses

theorem startOf_map_bare (o : Option ColumnReference) : startOf (o.map bare) = startOf o := by cases o <;> rfl

end ColumnReference

/-- A column as it is written. No reference stands among the constraints before its own. A default there is ended by a
constraint, or what it takes of the reference is the same without the quotes: none of it, when no constraint ends the
default behind either. -/
structure ColumnText where
  name : WrittenName
  ordinary : ∀ word ∈ "REFERENCES" :: reservedNames, ¬ Spells word.toList name.name
  nameEnd : Space
  type : List Char
  typeNonempty : type ≠ []
  typeWord : ∀ c ∈ type, Text.isWordChar c = true
  constraints : List Char
  constraintsHead : ∀ c ∈ constraints.head?, Text.isWordChar c = false
  free : IsFree (type ++ constraints)
  noIndex : afterCreate.hits none (type ++ constraints) = []
  reference : Option ColumnReference
  noReference : inlineReference.occursIn (type ++ (constraints ++ ColumnReference.startOf reference)) = false
  defaultSettled : ∀ r ∈ reference, DefaultClosed none (constraints ++ r.start.text) ∨
    r.bare.taken r.clauses = r.taken r.clauses

namespace ColumnText

/-- The same column without quotes. -/
def bare (c : ColumnText) : ColumnText := { c with
  name := c.name.bare
  reference := c.reference.map ColumnReference.bare
  noReference := by
    rw [ColumnReference.startOf_map_bare]
    exact c.noReference
  defaultSettled := fun r hr => by
    obtain ⟨r', -, rfl⟩ := Option.map_eq_some_iff.1 hr
    exact .inr rfl }

/-- What stands behind the type. -/
def rest (c : ColumnText) : List Char := c.constraints ++ ColumnReference.textOf c.reference

/-- The text of a column. -/
def text (c : ColumnText) : List Char := c.name.text ++ (c.nameEnd.text ++ (c.type ++ c.rest))

variable (c : ColumnText)

theorem type_append_rest : c.type ++ c.rest = (c.type ++ c.constraints) ++ ColumnReference.textOf c.reference := by
  rw [rest, List.append_assoc]

theorem isPart : Sql.IsPart c.text := by
  have hEnding : Sql.IsPart (ColumnReference.textOf c.reference) := by
    cases c.reference with
    | none => exact Sql.isPart_of_forall (by simp [ColumnReference.textOf])
    | some r => exact (r.start.toGap.isPart.append r.isPart_clause).append r.free.isPart
  rw [text, type_append_rest]
  exact c.name.isPart.append (c.nameEnd.toGap.isPart.append (c.free.isPart.append hEnding))

theorem isBlank_head_type (s : List Char) : ∀ d ∈ (c.type ++ s).head?, Text.isBlank d = false :=
  Text.isBlank_head_append c.typeNonempty c.typeWord s

theorem isBlank_getLast_text : ∀ d ∈ c.text.getLast?, Text.isBlank d = false := by
  have hEnding : ∀ d ∈ (ColumnReference.textOf c.reference).getLast?, Text.isBlank d = false := by
    cases c.reference with
    | none => simp [ColumnReference.textOf]
    | some r =>
      have hReference : ∀ d ∈ r.toWrittenReference.text.getLast?, Text.isBlank d = false := by
        rw [WrittenReference.text, List.getLast?_append_of_ne_nil _ (by simp [WrittenReference.clause])]
        exact r.isBlank_getLast_clause
      exact Text.isBlank_getLast_append hReference r.free.ends
  have hType : ∀ d ∈ (c.nameEnd.text ++ (c.type ++ c.rest)).getLast?, Text.isBlank d = false := by
    rw [List.getLast?_append_of_ne_nil _ (by simp [c.typeNonempty]), type_append_rest]
    exact Text.isBlank_getLast_append c.free.ends hEnding
  rw [text, List.getLast?_append_of_ne_nil _ (by simp [c.typeNonempty])]
  exact hType

theorem trim_text : Text.trim c.text = c.text :=
  Text.trim_eq_self (c.name.isSolid.head _) c.isBlank_getLast_text

end ColumnText

/-! ## An item that is a column -/

/-- A quote begins no keyword. -/
theorem WrittenName.occursIn_atStart (n : WrittenName) (hp : p.Refuses fun c => !Text.isWordChar c)
    (hBare : (atStart ++ p).occursIn (n.name ++ s) = false) : (atStart ++ p).occursIn (n.text ++ s) = false := by
  have hQuoted : ∀ (o : Char) (t : List Char), Text.isWordChar o = false → (atStart ++ p).occursIn (o :: t) = false :=
    fun o t ho => by
      rw [occursIn, find_atStart_append, here, hp none o t (by simpa using ho)]
      rfl
  cases hQuoting : n.quoting with
  | bare =>
    have hText : n.text = n.name := by simp [text, hQuoting, Quoting.opening, Quoting.closing]
    rwa [hText]
  | double =>
    rw [text, hQuoting]
    exact hQuoted '"' _ (by decide)
  | backtick =>
    rw [text, hQuoting]
    exact hQuoted '\x60' _ (by decide)
  | bracket =>
    rw [text, hQuoting]
    exact hQuoted '[' _ (by decide)

/-- A name that begins no other item begins a column, in quotes or without them. -/
theorem WrittenName.beginsColumn (n : WrittenName) (h : ∀ word ∈ reservedNames, ¬ Spells word.toList n.name)
    (hs : ∀ c ∈ s.head?, Text.isWordChar c = false) : BeginsColumn (n.text ++ s) := by
  have hRefuses : ∀ {word : String}, IsKeyword word → (keyword word.toList).Refuses fun c => !Text.isWordChar c :=
    fun h => h.refuses fun c hc => by simpa using hc
  have hConstraint : ∀ t, constraintItem.occursIn t = (atStart ++ (either (keyword "UNIQUE".toList)
      (either (keyword "CHECK".toList) (keyword "CONSTRAINT".toList)) ++ atWordEdge)).occursIn t := fun t => by
    rw [occursIn, find, constraintItem, findFrom_append_assoc]
    rfl
  obtain ⟨hForeign, hPrimary, hOther⟩ := beginsColumn_of_not_spells n.word h hs
  refine ⟨n.occursIn_atStart ?_ hForeign, n.occursIn_atStart ?_ hPrimary, ?_⟩
  · exact ((hRefuses (by decide)).append blanks).append _
  · exact ((hRefuses (by decide)).append blanks).append _
  · rw [hConstraint] at hOther ⊢
    refine n.occursIn_atStart (Refuses.append ?_ atWordEdge) hOther
    exact (hRefuses (by decide)).either ((hRefuses (by decide)).either (hRefuses (by decide)))

/-- A blank before a text is for the edge of a word like the beginning of a text. -/
theorem find_atWordEdge_of_blank {s : List Char} (hp : p.Forward) {d : Char} (hd : Text.isBlank d = true) :
    (atWordEdge ++ p).findFrom (some d) s = (atWordEdge ++ p).find s := by
  have hHere : (atWordEdge ++ p).here (some d) s = (atWordEdge ++ p).here none s := by
    have hEdge : wordEdge (some d) s = wordEdge none s := by
      simp [wordEdge, wordEdge.isWord, Text.isWordChar_of_isBlank hd]
    rw [here, here, hits_atWordEdge_append, hits_atWordEdge_append, hEdge, hp.hits_eq (some d) none]
  cases s with
  | nil => exact hHere
  | cons e s => rw [find, findFrom, findFrom, hHere]

theorem forward_referencesPhrase : referencesPhrase.Forward :=
  have hName : ∀ n, (name n).Forward := fun _ => ⟨⟨⟨trivial, trivial⟩, trivial⟩, trivial, trivial⟩
  ⟨forward_keyword _, trivial, hName 1, ⟨trivial, trivial⟩, trivial, ⟨trivial, trivial⟩, hName 2, ⟨trivial, trivial⟩,
    trivial⟩

namespace ColumnText

variable (c : ColumnText)

theorem beginsColumn : BeginsColumn c.text :=
  c.name.beginsColumn (fun word hWord => c.ordinary word (List.mem_cons_of_mem _ hWord))
    (c.nameEnd.isWordChar_head _)

/-- The name and the type of a column are its first two words. -/
theorem find_columnHead : columnHead.find c.text = some ⟨c.name.text ++ c.nameEnd.text ++ c.type,
    [(1, c.name.name), (2, c.type)], c.rest⟩ := by
  have hNameTakes : (Ddl.name 1).Takes (blanks ++ group 2 word) c.name.text [(1, c.name.name)]
      (c.nameEnd.text ++ (c.type ++ c.rest)) := by
    refine c.name.takes 1 (refuses_blanks.append _) ((refuses_many fun d hd => ?_).append _) fun d hd => ?_
    · exact isBlank_of_isNameQuote (by rw [nameList.isNameQuote, hd, Bool.or_true])
    · have hBlank := c.nameEnd.isBlank_head _ d hd
      exact ⟨Text.isWordChar_of_isBlank hBlank, closesName_of_isBlank hBlank⟩
  have hBlanks : blanks.Takes (group 2 word) c.nameEnd.text [] (c.type ++ c.rest) :=
    c.nameEnd.takes (c.isBlank_head_type _) (refuses_group refuses_wordRun 2)
  have hRest : ∀ d ∈ c.rest.head?, Text.isWordChar d = false := by
    rw [rest]
    intro d hd
    rw [List.head?_append] at hd
    rcases Option.or_eq_some_iff.1 hd with hd | ⟨-, hd⟩
    · exact c.constraintsHead d hd
    · cases hReference : c.reference with
      | none => simp [hReference, ColumnReference.textOf] at hd
      | some r =>
        rw [hReference, ColumnReference.textOf, WrittenReference.text, List.append_assoc] at hd
        exact r.start.isWordChar_head _ d hd
  -- the longest type is tried first
  obtain ⟨ks, hks, -⟩ : ∃ ks, (group 2 word).hits (lastOf none (c.name.text ++ c.nameEnd.text)) (c.type ++ c.rest) =
      ⟨c.type, [(2, c.type)], c.rest⟩ :: ks ∧ _ := hits_group_many 2 c.typeNonempty c.typeWord hRest
  have hHead := (hNameTakes.append hBlanks) none
  rw [hits_append_assoc, List.append_assoc] at hHead
  rw [find, columnHead, findFrom_append_assoc, findFrom_append_assoc, ← find, find_atStart_append, here, text, hHead,
    hks]
  rfl

/-- Flags and default do not depend on the quotes in the reference. -/
theorem read_rest_bare : primaryKeyPhrase.occursIn c.bare.rest = primaryKeyPhrase.occursIn c.rest ∧
    notNullPhrase.occursIn c.bare.rest = notNullPhrase.occursIn c.rest ∧
    autoIncrementPhrase.occursIn c.bare.rest = autoIncrementPhrase.occursIn c.rest ∧
    defaultIn c.bare.rest = defaultIn c.rest := by
  have hSettled := c.defaultSettled
  simp only [rest, bare]
  generalize c.reference = reference at hSettled ⊢
  cases reference with
  | none => exact ⟨rfl, rfl, rfl, rfl⟩
  | some r =>
    have hPhrase : ∀ {first second : String}, IsKeyword first → IsKeyword second →
        ¬ first.toList.map Text.lowerAscii <:+ "REFERENCES".toList.map Text.lowerAscii →
        "REFERENCES".toList.head?.map Text.lowerAscii ≠ second.toList.head?.map Text.lowerAscii →
        (phrase first [second]).occursIn (c.constraints ++ (r.bare.toWrittenReference.text ++ r.clauses)) =
          (phrase first [second]).occursIn (c.constraints ++ (r.toWrittenReference.text ++ r.clauses)) :=
      fun hFirst hSecond hNot hLetter => by
        rw [WrittenReference.occursIn_phrase_append _ hFirst hSecond hNot hLetter,
          WrittenReference.occursIn_phrase_append _ hFirst hSecond hNot hLetter]
        rfl
    refine ⟨hPhrase (by decide) (by decide) (by decide) (by decide),
      hPhrase (by decide) (by decide) (by decide) (by decide), ?_, ?_⟩
    · show autoIncrementPhrase.occursIn (c.constraints ++ (r.bare.toWrittenReference.text ++ r.clauses)) =
        autoIncrementPhrase.occursIn (c.constraints ++ (r.toWrittenReference.text ++ r.clauses))
      rw [WrittenReference.occursIn_autoIncrement_append, WrittenReference.occursIn_autoIncrement_append]
      rfl
    · show defaultIn (c.constraints ++ (r.bare.toWrittenReference.text ++ r.clauses)) =
        defaultIn (c.constraints ++ (r.toWrittenReference.text ++ r.clauses))
      have hOpen : openValue (r.bare.taken r.clauses) none (c.constraints ++ r.start.text) =
          openValue (r.taken r.clauses) none (c.constraints ++ r.start.text) :=
        (hSettled r rfl).elim (openValue_of_closed _ _) fun hSame => by rw [hSame]
      rw [defaultIn_append_reference, defaultIn_append_reference, ← hOpen]
      rfl

/-- The column that is read. -/
theorem readColumn?_bare : readColumn? c.bare.text = readColumn? c.text := by
  obtain ⟨hPrimary, hNotNull, hAuto, hDefault⟩ := c.read_rest_bare
  rw [readColumn?_eq, readColumn?_eq, trim_text, trim_text, find_columnHead, find_columnHead, Option.map_some,
    Option.map_some]
  simp only [columnOf, hPrimary, hNotNull, hAuto, hDefault]
  rfl

/-! ## The reference of a column -/

/-- The reference of a column is found where it stands, or there is none. -/
theorem find_inlineReference : (inlineReference.find c.text).map (fun h => (h.groupText 1, h.groupText 2, h.rest)) =
    c.reference.map fun r => (r.table.name, r.column.name, r.clauses) := by
  have hName : (atWordEdge ++ referencesPhrase).PassesOver none c.name.text (c.nameEnd.text ++ (c.type ++ c.rest)) :=
    c.name.passesOver_of_not_spells (by decide) (c.nameEnd.isWordChar_head _)
      (c.ordinary _ List.mem_cons_self) afterReferences none
  have hNameEnd : ∀ last s, (atWordEdge ++ referencesPhrase).PassesOver last c.nameEnd.text s := fun _ _ =>
    refuses_referencesPhrase.passesOver c.nameEnd.blank
  obtain ⟨b, d, hEnd⟩ := (List.eq_nil_or_concat' c.nameEnd.text).resolve_left c.nameEnd.nonempty
  have hd : Text.isBlank d = true := c.nameEnd.blank d (by rw [hEnd]; simp)
  have hLast : ∀ last, lastOf last c.nameEnd.text = some d := fun last => by simp [lastOf, hEnd]
  rw [Ddl.find_inlineReference, find, text, findFrom_append hName, findFrom_append (hNameEnd _ _), hLast]
  have hNone := c.noReference
  rw [occursIn, Option.isSome_eq_false_iff, Option.isNone_iff_eq_none, Ddl.find_inlineReference] at hNone
  rw [rest]
  cases hReference : c.reference with
  | none =>
    rw [hReference, ColumnReference.startOf] at hNone
    rw [ColumnReference.textOf, find_atWordEdge_of_blank forward_referencesPhrase hd, hNone]
    rfl
  | some r =>
    obtain ⟨u, e, hStart, he⟩ := r.exists_start
    rw [hReference, ColumnReference.startOf, hStart, ← List.append_assoc, ← List.append_assoc] at hNone
    have hText : c.type ++ (c.constraints ++ ColumnReference.textOf (some r)) =
        (c.type ++ c.constraints ++ u ++ [e]) ++ (r.clause ++ r.clauses) := by
      simp [ColumnReference.textOf, WrittenReference.text, hStart]
    have hOver := (r.settledBefore_referencesPhrase he r.clauses).passesOver
      ((find_atWordEdge_of_blank forward_referencesPhrase hd).trans hNone)
    have hBefore : lastOf (some d) (c.type ++ c.constraints ++ u ++ [e]) = some e := by simp [lastOf]
    rw [hText, findFrom_append hOver, hBefore, r.findFrom_referencesPhrase he]
    rfl

theorem readInlineReference?_bare (column : String) :
    readInlineReference? column c.bare.text = readInlineReference? column c.text := by
  have hRead : ∀ s, readInlineReference? column s =
      ((inlineReference.find s).map fun h => (h.groupText 1, h.groupText 2, h.rest)).map fun h => {
        column := column
        referencesTable := String.ofList h.1
        referencesColumn := String.ofList h.2.1
        onDelete := actionOn "DELETE" h.2.2
        onUpdate := actionOn "UPDATE" h.2.2 } := fun s => by
    rw [Option.map_map]
    rfl
  have hReference : c.bare.reference = c.reference.map ColumnReference.bare := rfl
  rw [hRead, hRead, find_inlineReference, find_inlineReference, hReference]
  cases c.reference <;> rfl

/-- A column adds the same to its table without the quotes. -/
theorem addItem_bare (t : Table) : addItem t c.bare.text = addItem t c.text := by
  obtain ⟨column, hColumn⟩ : ∃ column, readColumn? c.text = some column := by
    rw [readColumn?_eq, trim_text, find_columnHead]
    exact ⟨_, rfl⟩
  have hBare : readColumn? c.bare.text = some column := c.readColumn?_bare.trans hColumn
  rw [addItem_of_beginsColumn c.beginsColumn hColumn, addItem_of_beginsColumn c.bare.beginsColumn hBare,
    readInlineReference?_bare]

/-! ## No index in a column -/

theorem passesOver_createIndex (hs : EndsIndex s) (last : Option Char) :
    createIndexPhrase.PassesOver last c.text s := by
  have hEnds : EndsIndex (ColumnReference.textOf c.reference ++ s) := by
    cases c.reference with
    | none => exact hs
    | some r =>
      rw [ColumnReference.textOf, List.append_assoc]
      exact r.endsIndex _
  have hType : ∀ last, afterCreate.hits last (c.type ++ c.rest ++ s) = [] := fun last => by
    rw [type_append_rest, List.append_assoc]
    exact c.free.hits_afterCreate (by simp [c.typeNonempty]) c.noIndex hEnds last
  have hName : createIndexPhrase.PassesOver last c.name.text ((c.nameEnd.text ++ (c.type ++ c.rest)) ++ s) := by
    rw [List.append_assoc]
    refine c.name.passesOver (by decide) (c.nameEnd.isWordChar_head _)
      (hits_blanks_append_gap c.nameEnd.toGap refuses_afterCreate_blank ?_ hType) last
    rw [List.append_assoc]
    exact c.isBlank_head_type _
  have hReference : ∀ last, createIndexPhrase.PassesOver last (ColumnReference.textOf c.reference) s := by
    intro last
    cases c.reference with
    | none => trivial
    | some r => exact (r.passesOver_createIndex _ last).append (r.free.passesOver_createIndex hs _)
  rw [text]
  refine hName.append ((passesOver_createIndex_gap c.nameEnd.toGap _ _).append ?_)
  rw [type_append_rest]
  exact (c.free.passesOver_createIndex hEnds _).append (hReference _)

end ColumnText

end SqlSurvey.Ddl
