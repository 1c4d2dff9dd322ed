import SqlSurvey.Ddl.Table
import SqlSurvey.Proofs.Ddl.Phrase
import SqlSurvey.Proofs.Schema.Rendering

/-!
# Columns that are read back

A column that has been written down is taken for a column, and every part of it is found where it was
put: the flags do not depend on the default, nor the default on the flags.
-/

namespace SqlSurvey.Ddl

open Pattern

variable {n t s w : List Char} {last : Option Char}

/-! ## Items that begin with another word -/

/-- A word of letters. -/
def isLettered (word : String) : Bool := word.toList.all fun l => l.toLower.isAlpha

theorem isWordChar_of_isLettered {word : String} (h : isLettered word = true) :
    ∀ l ∈ word.toList, ∀ c, Text.sameLetter l c = true → Text.isWordChar c = true :=
  fun l hl _ hc => Text.isWordChar_of_sameLetter (List.all_eq_true.1 h l hl) hc

/-- An identifier that is not a word in either case does not stand for it. -/
theorem not_spells {word : String} (h : isLettered word = true) (hn : Text.isIdentifier n = true)
    (hNot : Text.sameAscii word.toList n = false) : ¬ Spells word.toList n := by
  intro hSpells
  have hSame := Text.sameAscii_of_forall₂ (fun l hl => List.all_eq_true.1 h l hl)
    (fun c hc => Text.toNat_lt_of_isIdentifierChar (Text.isIdentifierChar_of_mem hn hc)) hSpells
  exact Bool.false_ne_true (hNot.symm.trans hSame)

/-- An item does not begin with a phrase when its first word does not stand for that of the phrase. -/
theorem occursIn_atStart_phrase_of_not_spells {first second : String} (hFirst : isLettered first = true)
    (hNonempty : first.toList ≠ []) (hn : ∀ c ∈ n, Text.isWordChar c = true)
    (hs : ∀ c ∈ s.head?, Text.isWordChar c = false) (hNot : ¬ Spells first.toList n) :
    (atStart ++ phrase first [second]).occursIn (n ++ s) = false := by
  have hBlanks : (blanks ++ keyword second.toList).Refuses Text.isWordChar := refuses_blanks.append _
  have hNone : (phrase first [second]).hits none (n ++ s) = [] := by
    show ((keyword first.toList ++ blanks) ++ keyword second.toList).hits none (n ++ s) = []
    rw [hits_append_assoc, hits_keyword_append_word (isWordChar_of_isLettered hFirst) hn hs
      (fun l c r _ hc => hBlanks (some l) c r hc) (.inl hNonempty), if_neg hNot]
  rw [occursIn, find_atStart_append, here, hNone]
  rfl

/-- The same for an identifier that is another word. -/
theorem occursIn_atStart_phrase {first second : String} (hFirst : isLettered first = true)
    (hNonempty : first.toList ≠ []) (hn : Text.isIdentifier n = true)
    (hs : ∀ c ∈ s.head?, Text.isWordChar c = false) (hNot : Text.sameAscii first.toList n = false) :
    (atStart ++ phrase first [second]).occursIn (n ++ s) = false :=
  occursIn_atStart_phrase_of_not_spells hFirst hNonempty (Text.isWordChar_of_isIdentifier hn) hs
    (not_spells hFirst hn hNot)

/-- An item is no constraint when its first word stands for none of the three words for constraints. -/
theorem occursIn_constraintItem_of_not_spells (hn : ∀ c ∈ n, Text.isWordChar c = true)
    (hs : ∀ c ∈ s.head?, Text.isWordChar c = false)
    (hNot : ∀ word ∈ ["UNIQUE", "CHECK", "CONSTRAINT"], ¬ Spells word.toList n) :
    constraintItem.occursIn (n ++ s) = false := by
  -- a word that goes on has no edge inside
  have hEdge : ∀ l c r, Text.isWordChar l = true → Text.isWordChar c = true →
      atWordEdge.hits (some l) (c :: r) = [] := by
    intro l c r hl hc
    simp [hits, wordEdge, wordEdge.isWord, hl, hc]
  have hWord : ∀ word : String, isLettered word = true → word.toList ≠ [] →
      ¬ Spells word.toList n → (keyword word.toList ++ atWordEdge).hits none (n ++ s) = [] := by
    intro word hLetters hNonempty hOther
    rw [hits_keyword_append_word (isWordChar_of_isLettered hLetters) hn hs hEdge (.inl hNonempty), if_neg hOther]
  have hNone : (either (keyword "UNIQUE".toList) (either (keyword "CHECK".toList)
      (keyword "CONSTRAINT".toList)) ++ atWordEdge).hits none (n ++ s) = [] := by
    rw [hits_either_append, hits_either_append,
      hWord "UNIQUE" (by decide) (by decide) (hNot _ (by simp)),
      hWord "CHECK" (by decide) (by decide) (hNot _ (by simp)),
      hWord "CONSTRAINT" (by decide) (by decide) (hNot _ (by simp))]
    rfl
  rw [occursIn, find, constraintItem, findFrom_append_assoc, ← find, find_atStart_append, here, hNone]
  rfl

/-- The same for an identifier that is none of them. -/
theorem occursIn_constraintItem (hn : Text.isIdentifier n = true)
    (hs : ∀ c ∈ s.head?, Text.isWordChar c = false)
    (hNot : ∀ word ∈ ["UNIQUE", "CHECK", "CONSTRAINT"], Text.sameAscii word.toList n = false) :
    constraintItem.occursIn (n ++ s) = false := by
  refine occursIn_constraintItem_of_not_spells (Text.isWordChar_of_isIdentifier hn) hs fun word hWord => ?_
  have hLettered : ∀ word ∈ ["UNIQUE", "CHECK", "CONSTRAINT"], isLettered word = true := by decide
  exact not_spells (hLettered word hWord) hn (hNot word hWord)

/-! ## The head of a column -/

/-- The name and the type of a column are its first two words. -/
theorem find_columnHead (hn : n ≠ []) (hName : ∀ c ∈ n, Text.isWordChar c = true) (ht : t ≠ [])
    (hType : ∀ c ∈ t, Text.isWordChar c = true) (hs : ∀ c ∈ s.head?, Text.isWordChar c = false) :
    columnHead.find (n ++ ([' '] ++ (t ++ s))) = some ⟨n ++ [' '] ++ t, [(1, n), (2, t)], s⟩ := by
  have hNameTakes : (name 1).Takes (blanks ++ group 2 word) n [(1, n)] ([' '] ++ (t ++ s)) :=
    takes_name 1 hn hName (by simp; decide) (refuses_blanks.append _)
  have hBlanks : blanks.Takes (group 2 word) [' '] [] (t ++ s) :=
    takes_space (Text.isBlank_head_append ht hType s) _
  -- the longest type is tried first
  obtain ⟨ks, hks, -⟩ : ∃ ks, (group 2 word).hits (lastOf none (n ++ [' '])) (t ++ s) =
      ⟨t, [(2, t)], s⟩ :: ks ∧ _ := hits_group_many 2 ht hType hs
  have hHead := (hNameTakes.append hBlanks) none
  rw [hits_append_assoc, List.append_assoc] at hHead
  rw [find, columnHead, findFrom_append_assoc, findFrom_append_assoc, ← find, find_atStart_append, here, hHead,
    hks]
  rfl

/-! ## What stands after the type -/

/-- A pattern that refuses all of a text, and the end of texts, is not found in it. -/
theorem findFrom_of_refuses {p : Pattern} {A : Char → Bool} (hp : p.Refuses A)
    (hNil : ∀ last, p.hits last [] = []) (hs : ∀ c ∈ s, A c = true) : p.findFrom last s = none := by
  have h := findFrom_append (b := []) (hp.passesOver hs : p.PassesOver last s [])
  rw [List.append_nil] at h
  rw [h, findFrom, here, hNil]
  rfl

/-- A phrase whose words begin with letters does not take any part of a number. -/
theorem occursIn_append_decimal {p : Pattern} (hAvoids : p.Avoids Text.isDecimalChar)
    (hRefuses : p.Refuses Text.isDecimalChar) (hNil : ∀ last, p.hits last [] = []) {d : List Char}
    (hd : Text.isDecimal d = true) (s : List Char) : p.occursIn (s ++ d) = p.occursIn s := by
  have hChars : ∀ c ∈ d, Text.isDecimalChar c = true := fun c hc => Text.isDecimalChar_of_mem hd hc
  rw [occursIn, find, findFrom_append_of_avoids hAvoids s fun c hc => hChars c (List.mem_of_mem_head? hc),
    findFrom_of_refuses hRefuses hNil hChars, Option.or_none, Option.isSome_map]
  rfl

theorem avoids_keyword {A : Char → Bool} {ls : List Char}
    (h : ∀ l ∈ ls, ∀ c, A c = true → Text.sameLetter l c = false) : (keyword ls).Avoids A := by
  induction ls with
  | nil => trivial
  | cons l ls ih => exact ⟨h l List.mem_cons_self, ih fun m hm => h m (List.mem_cons_of_mem l hm)⟩

/-- Lettered keywords take word characters only. -/
theorem avoids_keyword_of_isLettered {A : Char → Bool} (hA : ∀ c, A c = true → Text.isWordChar c = false)
    {word : String} (h : isLettered word = true) : (keyword word.toList).Avoids A := by
  refine avoids_keyword fun l hl c hc => ?_
  rw [← Bool.not_eq_true]
  intro hSame
  have hWord := isWordChar_of_isLettered h l hl c hSame
  rw [hA c hc] at hWord
  exact Bool.false_ne_true hWord

/-- Keywords take no part of a number. -/
theorem avoids_keyword_decimal (word : String) (h : isLettered word = true) :
    (keyword word.toList).Avoids Text.isDecimalChar :=
  avoids_keyword fun l hl _ hc => Text.sameLetter_of_isDecimalChar (List.all_eq_true.1 h l hl) hc

theorem avoids_blanks_decimal : blanks.Avoids Text.isDecimalChar :=
  fun _ hc => Text.isBlank_of_isDecimalChar hc

theorem refuses_keyword_decimal (word : String) (h : beginsWithLetter word = true) :
    (keyword word.toList).Refuses Text.isDecimalChar := by
  obtain ⟨l, ls, hWord, hl⟩ := exists_of_beginsWithLetter h
  rw [hWord]
  exact refuses_keyword fun c hc => Text.sameLetter_of_isDecimalChar hl hc

/-- The keywords of a column are found where they have been written, with or without a default after them. -/
theorem occursIn_constraints {p : Pattern} {c : Column} (value : Bool → Bool → Bool → Bool)
    (hAvoids : p.Avoids Text.isDecimalChar) (hRefuses : p.Refuses Text.isDecimalChar)
    (hNil : ∀ last, p.hits last [] = [])
    (hPlain : ∀ key auto nullable, p.occursIn (Column.keywords key auto nullable) = value key auto nullable)
    (hDefault : ∀ key auto nullable,
      p.occursIn (Column.keywords key auto nullable ++ " DEFAULT ".toList) = value key auto nullable)
    (hc : ∀ d ∈ c.defaultValue, Text.isDecimal d.toList = true) :
    p.occursIn c.constraints = value c.isPrimaryKey c.isAutoIncrement c.nullable := by
  unfold Column.constraints
  cases hd : c.defaultValue with
  | none => simpa using hPlain _ _ _
  | some d =>
    show p.occursIn (_ ++ (" DEFAULT ".toList ++ d.toList)) = _
    rw [← List.append_assoc, occursIn_append_decimal hAvoids hRefuses hNil (hc d hd)]
    exact hDefault _ _ _

theorem avoids_phrase_decimal {first second : String} (hFirst : isLettered first = true)
    (hSecond : isLettered second = true) : (phrase first [second]).Avoids Text.isDecimalChar :=
  ⟨⟨avoids_keyword_decimal first hFirst, avoids_blanks_decimal⟩, avoids_keyword_decimal second hSecond⟩

theorem refuses_phrase_decimal {first second : String} (hFirst : beginsWithLetter first = true) :
    (phrase first [second]).Refuses Text.isDecimalChar :=
  ((refuses_keyword_decimal first hFirst).append _).append _

theorem occursIn_primaryKeyPhrase {c : Column} (hc : ∀ d ∈ c.defaultValue, Text.isDecimal d.toList = true) :
    primaryKeyPhrase.occursIn c.constraints = c.isPrimaryKey :=
  occursIn_constraints (fun key _ _ => key) (avoids_phrase_decimal (by decide) (by decide))
    (refuses_phrase_decimal (by decide)) (fun _ => rfl) (by decide) (by decide) hc

theorem occursIn_notNullPhrase {c : Column} (hc : ∀ d ∈ c.defaultValue, Text.isDecimal d.toList = true) :
    notNullPhrase.occursIn c.constraints = !(c.nullable || c.isPrimaryKey) :=
  occursIn_constraints (fun key _ nullable => !(nullable || key))
    (avoids_phrase_decimal (by decide) (by decide))
    (refuses_phrase_decimal (by decide)) (fun _ => rfl) (by decide) (by decide) hc

theorem occursIn_autoIncrementPhrase {c : Column}
    (hc : ∀ d ∈ c.defaultValue, Text.isDecimal d.toList = true) :
    autoIncrementPhrase.occursIn c.constraints = c.isAutoIncrement := by
  have hUnderscore : ∀ d, Text.isDecimalChar d = true → (d == '_') = false := by
    intro d hd
    rw [beq_eq_false_iff_ne]
    rintro rfl
    exact absurd hd (by decide)
  exact occursIn_constraints (fun _ auto _ => auto)
    ⟨⟨avoids_keyword_decimal "AUTO" (by decide), hUnderscore, trivial⟩,
      avoids_keyword_decimal "INCREMENT" (by decide)⟩
    (((refuses_keyword_decimal "AUTO" (by decide)).append _).append _) (fun _ => rfl)
    (by decide) (by decide) hc

/-! ## The default -/

/-- What stands before DEFAULT begins no such word. -/
theorem sameLetter_of_mem_keywords : ∀ key auto nullable, ∀ c ∈ Column.keywords key auto nullable ++ [' '],
    (!Text.sameLetter 'D' c) = true := by decide

/-- A search for DEFAULT at the beginning of a word passes over what it does not begin with. -/
theorem refuses_default (q : Pattern) :
    (atWordEdge ++ (keyword "DEFAULT".toList ++ q)).Refuses fun c => !Text.sameLetter 'D' c :=
  ((refuses_keyword (l := 'D') fun c hc => by simpa using hc).append q).atWordEdge_append

/-- Such a search ends where the default of a column is, or finds nothing. -/
theorem findFrom_default (q : Pattern) {d : List Char} (hd : Text.isDecimal d = true)
    (key auto nullable : Bool) :
    (atWordEdge ++ (keyword "DEFAULT".toList ++ (blanks ++ q))).find
        (Column.keywords key auto nullable ++ [' '] ++ ("DEFAULT".toList ++ ([' '] ++ d))) =
      (q.here (some ' ') d).map (⟨"DEFAULT ".toList, [], d⟩ : Hit).andThen := by
  have hChars : ∀ c ∈ d, Text.isDecimalChar c = true := fun c hc => Text.isDecimalChar_of_mem hd hc
  -- at the right place the keyword and the space after it are read
  have hHere : (atWordEdge ++ (keyword "DEFAULT".toList ++ (blanks ++ q))).here (some ' ')
      ("DEFAULT".toList ++ ([' '] ++ d)) =
        (q.here (some ' ') d).map (⟨"DEFAULT ".toList, [], d⟩ : Hit).andThen := by
    have hEdge : wordEdge (some ' ') ("DEFAULT".toList ++ ([' '] ++ d)) = true := rfl
    have hKeyword : (keyword "DEFAULT".toList).Takes (blanks ++ q) "DEFAULT".toList [] ([' '] ++ d) :=
      takes_keyword (by decide) _ _
    have hBlanks : blanks.Takes q [' '] [] d :=
      takes_space (fun c hc => Text.isBlank_of_isDecimalChar (hChars c (List.mem_of_mem_head? hc))) q
    have hAll := (hKeyword.append hBlanks) (some ' ')
    rw [hits_append_assoc, List.append_assoc] at hAll
    rw [here, hits_atWordEdge_append, if_pos hEdge, hAll, List.head?_map]
    rfl
  -- no other place has the first letter
  have hLater : (atWordEdge ++ (keyword "DEFAULT".toList ++ (blanks ++ q))).findFrom (some 'D')
      ("EFAULT".toList ++ ([' '] ++ d)) = none := by
    have hNil : ∀ last, (keyword "DEFAULT".toList ++ (blanks ++ q)).hits last [] = [] :=
      fun _ => hits_append_eq_nil rfl
    have hLetters : ∀ c ∈ "EFAULT".toList ++ [' '], (!Text.sameLetter 'D' c) = true := by decide
    rw [← List.append_assoc]
    refine findFrom_of_refuses (refuses_default _) (fun last => ?_) fun c hc => ?_
    · rw [hits_atWordEdge_append, hNil, ite_self]
    · rcases List.mem_append.1 hc with hc | hc
      · exact hLetters c hc
      · rw [Text.sameLetter_of_isDecimalChar (by decide) (hChars c hc)]
        rfl
  have hText : "DEFAULT".toList ++ ([' '] ++ d) = 'D' :: ("EFAULT".toList ++ ([' '] ++ d)) := rfl
  have hLast : lastOf none (Column.keywords key auto nullable ++ [' ']) = some ' ' := by simp [lastOf]
  rw [find, findFrom_append ((refuses_default _).passesOver (sameLetter_of_mem_keywords key auto nullable)),
    hLast, hText, findFrom, hLater, Option.or_none, ← hText, hHere]

/-- What blanks must come after is not found in a text without blanks. -/
theorem hits_append_blanks {p q : Pattern} (hs : ∀ c ∈ s, Text.isBlank c = false) :
    (p ++ (blanks ++ q)).hits last s = [] := by
  rw [hits_append, List.flatMap_eq_nil_iff]
  intro k hk
  have hRest : ∀ c ∈ k.rest.head?, Text.isBlank c = false := by
    intro c hc
    refine hs c ?_
    rw [← text_append_rest hk]
    exact List.mem_append_right _ (List.mem_of_mem_head? hc)
  rw [blanks, hits_many_append_of_not hRest, List.map_nil]

/-- A number at the end is not taken for a default that something else follows. -/
theorem find_defaultBeforeConstraint {d : List Char} (hd : Text.isDecimal d = true)
    (key auto nullable : Bool) :
    defaultBeforeConstraint.find (Column.keywords key auto nullable ++ [' '] ++
      ("DEFAULT".toList ++ ([' '] ++ d))) = none := by
  rw [find, defaultBeforeConstraint, findFrom_append_assoc, findFrom_append_assoc, findFrom_append_assoc,
    findFrom_append_assoc, ← find, findFrom_default _ hd, here, hits_append_blanks]
  · rfl
  · exact fun c hc => Text.isBlank_of_isDecimalChar (Text.isDecimalChar_of_mem hd hc)

/-- A number at the end is the default. -/
theorem find_defaultAtEnd {d : List Char} (hd : Text.isDecimal d = true) (key auto nullable : Bool) :
    defaultAtEnd.find (Column.keywords key auto nullable ++ [' '] ++ ("DEFAULT".toList ++ ([' '] ++ d))) =
      some ⟨"DEFAULT ".toList ++ d, [(1, d)], []⟩ := by
  have hNonblank : ∀ c ∈ d, (!Text.isBlank c) = true := fun c hc => by
    rw [Text.isBlank_of_isDecimalChar (Text.isDecimalChar_of_mem hd hc)]
    rfl
  have hEnd : (gap ++ atEnd).Refuses fun c => !Text.isBlank c := by
    refine (refuses_many fun c hc => by simpa using hc).maybe_append fun _ c r _ => ?_
    simp [hits]
  have hValue : (group 1 (many (fun c => !Text.isBlank c) .longest)).Takes (gap ++ atEnd) d [(1, d)] [] :=
    takes_group_many 1 (Text.ne_nil_of_isDecimal hd) hNonblank (by simp) hEnd
  have hHits := hValue (some ' ')
  rw [List.append_nil] at hHits
  have hDone : ∀ last, (gap ++ atEnd).hits last [] = [⟨[], [], []⟩] := fun _ => rfl
  rw [find, defaultAtEnd, findFrom_append_assoc, findFrom_append_assoc, findFrom_append_assoc,
    findFrom_append_assoc, ← find, findFrom_default _ hd, here, hHits, hDone]
  simp [Hit.andThen]

/-- The default of a column is found where it has been written. -/
theorem defaultIn_constraints {c : Column} (hc : ∀ d ∈ c.defaultValue, Text.isDecimal d.toList = true) :
    defaultIn c.constraints = c.defaultValue.map String.toList := by
  have hNone : ∀ key auto nullable, defaultIn (Column.keywords key auto nullable) = none := by decide
  unfold Column.constraints
  cases hd : c.defaultValue with
  | none => simpa using hNone _ _ _
  | some d =>
    have hText : Column.keywords c.isPrimaryKey c.isAutoIncrement c.nullable ++
        (" DEFAULT ".toList ++ d.toList) = Column.keywords c.isPrimaryKey c.isAutoIncrement c.nullable ++
          [' '] ++ ("DEFAULT".toList ++ ([' '] ++ d.toList)) := by simp
    have hTrim : Text.trim d.toList = d.toList := Text.trim_of_forall fun e he =>
      Text.isBlank_of_isDecimalChar (Text.isDecimalChar_of_mem (hc d hd) he)
    show defaultIn (_ ++ (" DEFAULT ".toList ++ d.toList)) = _
    rw [hText, defaultIn, find_defaultBeforeConstraint (hc d hd), find_defaultAtEnd (hc d hd)]
    show some (Text.trim d.toList) = _
    rw [hTrim]
    rfl

/-! ## The whole column -/

/-- A space follows the type of a column, or nothing does. -/
theorem head?_constraints (c : Column) : ∀ d ∈ c.constraints.head?, d = ' ' := by
  have hKeywords : ∀ key auto nullable, ∀ d ∈ (Column.keywords key auto nullable).head?, d = ' ' := by
    decide
  intro d hd
  rw [Column.constraints, List.head?_append] at hd
  cases hk : (Column.keywords c.isPrimaryKey c.isAutoIncrement c.nullable).head? with
  | some e =>
    obtain rfl : e = d := by simpa [hk] using hd
    exact hKeywords _ _ _ e hk
  | none =>
    rw [hk, Option.none_or] at hd
    cases hDefault : c.defaultValue with
    | none => simp [hDefault] at hd
    | some text => simpa [hDefault] using hd.symm

/-- A column that has been written down ends with no blank. -/
theorem isBlank_getLast_constraints {c : Column}
    (hc : ∀ d ∈ c.defaultValue, Text.isDecimal d.toList = true) :
    ∀ d ∈ c.constraints.getLast?, Text.isBlank d = false := by
  have hKeywords : ∀ key auto nullable, ∀ d ∈ (Column.keywords key auto nullable).getLast?,
      Text.isBlank d = false := by decide
  refine Text.isBlank_getLast_append (hKeywords _ _ _) ?_
  cases hDefault : c.defaultValue with
  | none => simp
  | some text =>
    intro d hd
    have hText := hc text hDefault
    have hLast : (" DEFAULT ".toList ++ text.toList).getLast? = text.toList.getLast? :=
      List.getLast?_append_of_ne_nil _ (Text.ne_nil_of_isDecimal hText)
    have hMem : d ∈ text.toList := List.mem_of_getLast? (hLast ▸ hd)
    exact Text.isBlank_of_isDecimalChar (Text.isDecimalChar_of_mem hText hMem)

theorem trim_render_column {c : Column} (h : c.Renderable) : Text.trim c.render = c.render := by
  unfold Column.render
  refine Text.trim_eq_self ?_ ?_
  · rw [List.append_assoc, List.append_assoc]
    exact Text.isBlank_head_append (Text.ne_nil_of_isIdentifier h.name)
      (Text.isWordChar_of_isIdentifier h.name) _
  · refine Text.isBlank_getLast_append (fun d hd => ?_) (isBlank_getLast_constraints h.default)
    rw [List.getLast?_append_of_ne_nil _ (Text.ne_nil_of_isIdentifier h.type)] at hd
    exact Text.isBlank_of_isIdentifier h.type d (List.mem_of_getLast? hd)

/-- A column is read back from its definition. -/
theorem readColumn?_render {c : Column} (h : c.Renderable) : readColumn? c.render = some c := by
  have hHead := find_columnHead (Text.ne_nil_of_isIdentifier h.name) (Text.isWordChar_of_isIdentifier h.name)
    (Text.ne_nil_of_isIdentifier h.type) (Text.isWordChar_of_isIdentifier h.type) (s := c.constraints)
    fun d hd => by rw [head?_constraints c d hd]; decide
  have hText : c.render = c.name.toList ++ ([' '] ++ (c.type.toList ++ c.constraints)) := by
    simp [Column.render]
  rw [readColumn?, trim_render_column h, hText, hHead]
  simp only [Option.map_some, occursIn_primaryKeyPhrase h.default, occursIn_notNullPhrase h.default,
    occursIn_autoIncrementPhrase h.default, defaultIn_constraints h.default]
  have hType : Column.ofType (String.ofList c.name.toList) (String.ofList c.type.toList) =
      ⟨c.name, c.type, true, false, false, none⟩ := by
    simp [Column.ofType, Text.upper_of_isIdentifier h.type h.upper]
  have hName : Hit.groupText ⟨c.name.toList ++ [' '] ++ c.type.toList,
      [(1, c.name.toList), (2, c.type.toList)], c.constraints⟩ 1 = c.name.toList := rfl
  have hTypeText : Hit.groupText ⟨c.name.toList ++ [' '] ++ c.type.toList,
      [(1, c.name.toList), (2, c.type.toList)], c.constraints⟩ 2 = c.type.toList := rfl
  rw [hName, hTypeText, hType]
  have hKey := h.key
  obtain ⟨name, type, nullable, key, auto, default⟩ := c
  cases key <;> cases nullable <;> cases auto <;> cases default <;>
    simp_all [Column.primaryKey, Column.autoIncrement, Column.notNull, Column.withDefault]

/-- No parenthesis stands in a column, so it refers to no other table. -/
theorem readInlineReference?_of_forall {name : String} (hs : ∀ c ∈ s, c ≠ '(') :
    readInlineReference? name s = none := by
  have hOpen : (exactly '(').findFrom none s = none := by
    refine findFrom_of_refuses (A := fun c => c != '(') (refuses_char fun c hc => by simpa using hc)
      (fun _ => rfl) fun c hc => ?_
    simpa using hs c hc
  have hNone : inlineReference.find s = none :=
    findFrom_append_of_left (findFrom_append_of_left (findFrom_append_of_left (findFrom_append_of_left
      (findFrom_append_of_right hOpen))))
  rw [readInlineReference?, hNone]
  rfl

/-! ## Columns as items -/

theorem tame_constraints {c : Column} (hc : ∀ d ∈ c.defaultValue, Text.isDecimal d.toList = true) :
    Sql.tame c.constraints = true := by
  have hKeywords : ∀ key auto nullable, Sql.tame (Column.keywords key auto nullable) = true := by decide
  refine Sql.tame_append (hKeywords _ _ _) ?_
  cases hDefault : c.defaultValue with
  | none => rfl
  | some d => exact Sql.tame_append (by decide) (Sql.tame_of_isDecimal (hc d hDefault))

/-- No parenthesis and no comma stands in a column. -/
theorem isItemChar_of_mem_render {c : Column} (h : c.Renderable) :
    ∀ d ∈ c.render, Sql.isItemChar d = true := by
  have hName : ∀ {w : List Char}, Text.isIdentifier w = true → ∀ d ∈ w, Sql.isItemChar d = true :=
    fun hw d hd => Sql.isItemChar_of_isIdentifierChar (Text.isIdentifierChar_of_mem hw hd)
  have hKeywords : ∀ key auto nullable, ∀ d ∈ Column.keywords key auto nullable,
      Sql.isItemChar d = true := by decide
  have hConstraints : ∀ d ∈ c.constraints, Sql.isItemChar d = true := by
    intro d hd
    rcases List.mem_append.1 hd with hd | hd
    · exact hKeywords _ _ _ d hd
    cases hDefault : c.defaultValue with
    | none => simp [hDefault] at hd
    | some text =>
      have hLead : ∀ d ∈ " DEFAULT ".toList, Sql.isItemChar d = true := by decide
      rw [hDefault] at hd
      rcases List.mem_append.1 hd with hd | hd
      · exact hLead d hd
      · exact Sql.isItemChar_of_isDecimalChar (Text.isDecimalChar_of_mem (h.default text hDefault) hd)
  intro d hd
  simp only [Column.render, List.mem_append, List.mem_singleton] at hd
  rcases hd with ((hd | rfl) | hd) | hd
  · exact hName h.name d hd
  · rfl
  · exact hName h.type d hd
  · exact hConstraints d hd

theorem isItem_render_column {c : Column} (h : c.Renderable) : Sql.IsItem c.render where
  tame := Sql.tame_append (Sql.tame_append (Sql.tame_append (Sql.tame_of_isIdentifier h.name) (by decide))
    (Sql.tame_of_isIdentifier h.type)) (tame_constraints h.default)
  item := Sql.isItem_of_forall (isItemChar_of_mem_render h)
  trim := trim_render_column h
  nonempty := by simp [Column.render]

/-- A column that has been written down adds that column to the table. -/
theorem addItem_render_column {c : Column} (h : c.Renderable) (table : Table) :
    addItem table c.render = table.addColumn c := by
  have hText : c.render = c.name.toList ++ ([' '] ++ (c.type.toList ++ c.constraints)) := by
    simp [Column.render]
  have hSpace : ∀ d ∈ ([' '] ++ (c.type.toList ++ c.constraints)).head?, Text.isWordChar d = false := by
    simp
    decide
  have hForeign : foreignKeyItem.occursIn c.render = false := by
    rw [hText]
    exact occursIn_atStart_phrase (by decide) (by decide) h.name hSpace (h.free "FOREIGN" (by decide))
  have hPrimary : primaryKeyItem.occursIn c.render = false := by
    rw [hText]
    exact occursIn_atStart_phrase (by decide) (by decide) h.name hSpace (h.free "PRIMARY" (by decide))
  have hConstraint : constraintItem.occursIn c.render = false := by
    have hWords : ∀ word ∈ ["UNIQUE", "CHECK", "CONSTRAINT"], word ∈ reservedNames := by decide
    rw [hText]
    exact occursIn_constraintItem h.name hSpace fun word hWord => h.free word (hWords word hWord)
  have hReference : readInlineReference? c.name c.render = none :=
    readInlineReference?_of_forall fun d hd hParen => by
      have := isItemChar_of_mem_render h d hd
      rw [hParen] at this
      exact absurd this (by decide)
  rw [addItem, hForeign, if_neg Bool.false_ne_true, hPrimary, if_neg Bool.false_ne_true, hConstraint,
    if_neg Bool.false_ne_true, readColumn?_render h]
  simp [hReference]

end SqlSurvey.Ddl
