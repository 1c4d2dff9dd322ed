import SqlSurvey.Ddl.Index
import SqlSurvey.Proofs.Ddl.Key
import SqlSurvey.Proofs.Pattern.Layout

/-!
# Definitions and their layout

Every pattern that definitions are read with is stable under squeezing, but for the one for a default. So keys,
foreign keys, indexes and all of a column but its default are read from a squeezed text as from the text.
-/

namespace SqlSurvey.Ddl

open Pattern

variable {s : List Char}

/-! ## Keywords and names -/

theorem stable_keyword {word : String} (h : isLettered word = true) : (keyword word.toList).Stable := by
  have hLetters : ∀ l ∈ word.toList, ∀ c, Text.isBlank c = true → Text.sameLetter l c = false := by
    intro l hl c hc
    rw [← Bool.not_eq_true]
    intro hSame
    simpa [Text.isWordChar_of_isBlank hc] using isWordChar_of_isLettered h l hl c hSame
  generalize word.toList = ls at hLetters
  induction ls with
  | nil => exact stable_empty
  | cons l ls ih =>
    exact (stable_char (hLetters l List.mem_cons_self)).append
      (ih fun m hm => hLetters m (List.mem_cons_of_mem l hm))

/-- A word that can stand in a phrase. -/
def isPhraseWord (word : String) : Bool := isLettered word && beginsWithLetter word

theorem stable_word {word : String} (h : isPhraseWord word = true) : (keyword word.toList).Stable :=
  stable_keyword (Bool.and_eq_true_iff.1 h).1

theorem refuses_word {word : String} (h : isPhraseWord word = true) :
    (keyword word.toList).Refuses Text.isBlank := refuses_keyword_blank (Bool.and_eq_true_iff.1 h).2

/-- Blanks between something stable and something stable that does not begin with one. -/
theorem stable_blanks {p q : Pattern} (hp : p.Stable) (hq : q.Stable) (hRefuses : q.Refuses Text.isBlank) :
    (p ++ blanks ++ q).Stable := (hp.append_loose loose_blanks).append hq hRefuses

theorem stable_gap {p q : Pattern} (hp : p.Stable) (hq : q.Stable) (hRefuses : q.Refuses Text.isBlank) :
    (p ++ gap ++ q).Stable := (hp.append_loose loose_gap).append hq hRefuses

/-- The same with something after the blanks that may be left out. -/
theorem stable_blanks_maybe {p q r : Pattern} (hp : p.Stable) (hr : r.Loose) (hrRefuses : r.Refuses Text.isBlank)
    (hq : q.Stable) (hRefuses : q.Refuses Text.isBlank) : (p ++ blanks ++ maybe r ++ q).Stable :=
  ((hp.append_loose loose_blanks).append (hr.maybe.append hq hRefuses)
    (hrRefuses.maybe_append hRefuses)).of_append_assoc

/-- A phrase is stable, however many words it has. -/
theorem stable_phrase {first : String} {others : List String} (hFirst : isPhraseWord first = true)
    (hOthers : ∀ word ∈ others, isPhraseWord word = true) : (phrase first others).Stable := by
  have hWords : ∀ p : Pattern, p.Stable →
      (others.foldl (fun p w => p ++ blanks ++ keyword w.toList) p).Stable := by
    induction others with
    | nil => exact fun p hp => hp
    | cons word others ih =>
      intro p hp
      have hWord := hOthers word List.mem_cons_self
      refine ih (fun w hw => hOthers w (List.mem_cons_of_mem word hw)) _ ?_
      exact stable_blanks hp (stable_word hWord) (refuses_word hWord)
  exact hWords _ (stable_word hFirst)

theorem refuses_phrase {first : String} {others : List String} (hFirst : isPhraseWord first = true) :
    (phrase first others).Refuses Text.isBlank := by
  have hWords : ∀ p : Pattern, p.Refuses Text.isBlank →
      (others.foldl (fun p w => p ++ blanks ++ keyword w.toList) p).Refuses Text.isBlank := by
    induction others with
    | nil => exact fun p hp => hp
    | cons word others ih => exact fun p hp => ih _ ((hp.append _).append _)
  exact hWords _ (refuses_word hFirst)

theorem stable_wordRun : word.Stable := stable_many .longest fun _ hc => Text.isWordChar_of_isBlank hc

theorem stable_name (n : Nat) : (name n).Stable :=
  ((stable_char fun _ hc => opensName_of_isBlank hc).maybe.append (stable_wordRun.group n)).append
    (stable_char fun _ hc => closesName_of_isBlank hc).maybe

theorem stable_exactly {c : Char} (hc : Text.isBlank c = false) : (exactly c).Stable :=
  stable_char fun _ hd => Text.beq_of_isBlank hc hd

/-- A list in parentheses has one hit or none: the text to the first closing parenthesis, if there is any. -/
theorem hits_parenthesized (n : Nat) (last : Option Char) (s : List Char) :
    (∃ b r, b ≠ [] ∧ ')' ∉ b ∧ s = '(' :: b ++ [')'] ++ r ∧
      (parenthesized n).hits last s = [⟨'(' :: b ++ [')'], [(n, b)], r⟩]) ∨
    (∃ r, s = '(' :: ')' :: r) ∨ ')' ∉ s ∨ ∀ c ∈ s.head?, c ≠ '(' := by
  by_cases hHead : s.head? = some '('
  · obtain ⟨t, rfl⟩ := List.head?_eq_some_iff.1 hHead
    by_cases hClose : ')' ∈ t
    · obtain ⟨b, r, rfl, hb⟩ := List.eq_append_cons_of_mem hClose
      by_cases hNil : b = []
      · exact .inr (.inl ⟨r, by rw [hNil]; rfl⟩)
      · refine .inl ⟨b, r, hNil, hb, by simp, ?_⟩
        have hHits := (takes_parenthesized n hNil hb empty r).hits last
        simpa using hHits
    · exact .inr (.inr (.inl (by simpa using hClose)))
  · exact .inr (.inr (.inr fun c hc h => hHead (h ▸ hc)))

theorem hits_parenthesized_empty (n : Nat) (last : Option Char) (r : List Char) :
    (parenthesized n).hits last ('(' :: ')' :: r) = [] := by
  have hMany : (many (fun c => c != ')') .longest).hits (some '(') (')' :: r) = [] := by
    simp [hits, runHits]
  have hOpen : (exactly '(').hits last ('(' :: ')' :: r) = [⟨['('], [], ')' :: r⟩] := by simp [exactly, hits]
  rw [parenthesized, hits_append_assoc, hits_append_of_singleton hOpen]
  rw [hits_append_eq_nil (p := group n _) (by
    rw [hits_group]
    exact congrArg _ hMany)]
  rfl

theorem stable_parenthesized (n : Nat) : (parenthesized n).Stable := by
  have hNone : ∀ last s, ')' ∉ s → (parenthesized n).hits last s = [] := fun last s hs =>
    hits_append_exactly_of_not_mem _ last hs
  have hStart : ∀ last s, (∀ c ∈ s.head?, c ≠ '(') → (parenthesized n).hits last s = [] := by
    intro last s hs
    cases s with
    | nil => exact hNone last [] List.not_mem_nil
    | cons c s =>
      refine refuses_parenthesized (A := fun d => d != '(') n rfl last c s ?_
      simpa using hs c rfl
  refine ⟨fun last s => ?_, fun last s h hh => ?_⟩
  · rcases hits_parenthesized n last s with ⟨b, r, hb, hClose, rfl, hHits⟩ | ⟨r, rfl⟩ | hs | hs
    · have hText : Text.squeeze ('(' :: b ++ [')'] ++ r) =
          '(' :: Text.squeeze b ++ [')'] ++ Text.squeeze r := by
        rw [List.append_assoc, List.cons_append, Text.squeeze_cons (by decide)]
        simp [Text.squeeze_append_cons (by decide : Text.isBlank ')' = false)]
      have hOne : Text.squeeze ('(' :: b ++ [')']) = '(' :: Text.squeeze b ++ [')'] := by
        rw [List.cons_append, Text.squeeze_cons (by decide), Text.squeeze_append_cons (by decide)]
        rfl
      have hTakes := takes_parenthesized n (b := Text.squeeze b) (mt Text.squeeze_eq_nil_iff.1 hb)
        (mt (Text.mem_squeeze (by decide)).1 hClose) empty (Text.squeeze r)
      rw [hHits, hText, hTakes.hits, List.map_singleton, Hit.squeeze]
      simp only [hOne, List.map_cons, List.map_nil]
    · rw [Text.squeeze_cons (by decide), Text.squeeze_cons (by decide), hits_parenthesized_empty,
        hits_parenthesized_empty, List.map_nil]
    · rw [hNone _ _ (mt (Text.mem_squeeze (by decide)).1 hs), hNone _ _ hs, List.map_nil]
    · rw [hStart last s hs, hStart, List.map_nil]
      intro c hc
      rw [Text.head?_squeeze] at hc
      obtain ⟨d, hd, rfl⟩ := Option.map_eq_some_iff.1 hc
      unfold Text.squeezeChar
      by_cases hBlank : Text.isBlank d = true
      · rw [if_pos hBlank]
        decide
      · rw [if_neg hBlank]
        exact hs d hd
  · obtain ⟨t, ht⟩ := exists_text_of_append_exactly (q := exactly '(' ++ group n _) hh
    exact .inl (by simp [ht, Text.isBlank, Text.inRanges, Text.blankRanges])

/-! ## The patterns of definitions -/

theorem loose_ifNotExists : (phrase "IF" ["NOT", "EXISTS"] ++ blanks).Loose :=
  (stable_phrase (by decide) (by decide)).append_loose loose_blanks

theorem refuses_ifNotExists : (phrase "IF" ["NOT", "EXISTS"] ++ blanks).Refuses Text.isBlank :=
  (refuses_phrase (by decide)).append _

theorem stable_createTableShape : createTableShape.Stable := stable_phrase (by decide) (by decide)

theorem stable_createTableHead : createTableHead.Stable :=
  stable_gap (stable_blanks_maybe stable_createTableShape loose_ifNotExists refuses_ifNotExists (stable_name 1)
    (refuses_name 1)) (stable_exactly (by decide)) (refuses_exactly (by decide))

theorem refuses_createTableHead_blank : createTableHead.Refuses Text.isBlank :=
  (((((refuses_phrase (by decide)).append _).append _).append _).append _).append _

theorem stable_createIndexClause : createIndexClause.Stable := by
  have hIndex : (keyword "CREATE".toList ++ blanks ++ maybe (group 1 (keyword "UNIQUE".toList ++ blanks)) ++
      keyword "INDEX".toList).Stable :=
    stable_blanks_maybe (stable_word (by decide))
      (((stable_word (by decide)).append_loose loose_blanks).group 1)
      (refuses_group ((refuses_word (by decide)).append _) 1) (stable_word (by decide))
      (refuses_word (by decide))
  have hOn := stable_blanks (stable_blanks_maybe hIndex loose_ifNotExists refuses_ifNotExists (stable_name 2)
    (refuses_name 2)) (stable_word (by decide : isPhraseWord "ON" = true)) (refuses_word (by decide))
  exact stable_gap (stable_blanks hOn (stable_name 3) (refuses_name 3)) (stable_parenthesized 4)
    (refuses_parenthesized 4 (by decide))

theorem refuses_createIndexClause : createIndexClause.Refuses Text.isBlank :=
  ((((((((((((refuses_word (by decide)).append _).append _).append _).append _).append _).append _).append
    _).append _).append _).append _).append _).append _

theorem stable_primaryKeyClause : primaryKeyClause.Stable :=
  stable_gap (stable_phrase (by decide) (by decide)) (stable_parenthesized 1)
    (refuses_parenthesized 1 (by decide))

theorem refuses_primaryKeyClause : primaryKeyClause.Refuses Text.isBlank :=
  ((refuses_phrase (by decide)).append _).append _

theorem stable_foreignKeyClause : foreignKeyClause.Stable := by
  have hReferences : isPhraseWord "REFERENCES" = true := by decide
  have hKey : (phrase "FOREIGN" ["KEY"]).Stable := stable_phrase (by decide) (by decide)
  have hColumns := stable_gap hKey (stable_parenthesized 1) (refuses_parenthesized 1 (by decide))
  have hTable := stable_blanks (stable_gap hColumns (stable_word hReferences) (refuses_word hReferences))
    (stable_name 2) (refuses_name 2)
  exact stable_gap hTable (stable_parenthesized 3) (refuses_parenthesized 3 (by decide))

theorem refuses_foreignKeyClause : foreignKeyClause.Refuses Text.isBlank :=
  ((((((((refuses_phrase (by decide)).append _).append _).append _).append _).append _).append _).append
    _).append _

theorem stable_inlineReference : inlineReference.Stable := by
  have hReferences : isPhraseWord "REFERENCES" = true := by decide
  have hTable := stable_blanks (stable_atWordEdge.append (stable_word hReferences)) (stable_name 1)
    (refuses_name 1)
  have hOpen := stable_gap hTable (stable_exactly (c := '(') (by decide)) (refuses_exactly (by decide))
  have hColumn := stable_gap hOpen (stable_name 2) (refuses_name 2)
  exact stable_gap hColumn (stable_exactly (by decide)) (refuses_exactly (by decide))

theorem refuses_inlineReference : inlineReference.Refuses Text.isBlank :=
  (((((((((refuses_word (by decide)).atWordEdge_append).append _).append _).append _).append _).append _).append
    _).append _).append _

theorem stable_action (n : Nat) : (action n).Stable :=
  ((stable_phrase (by decide) (by decide)).either ((stable_phrase (by decide) (by decide)).either
    ((stable_phrase (by decide) (by decide)).either stable_wordRun))).group n

theorem refuses_action (n : Nat) : (action n).Refuses Text.isBlank :=
  refuses_group ((refuses_phrase (by decide)).either ((refuses_phrase (by decide)).either
    ((refuses_phrase (by decide)).either refuses_wordRun))) n

theorem stable_onEvent {event : String} (h : isPhraseWord event = true) : (onEvent event).Stable :=
  stable_blanks (stable_atWordEdge.append (stable_phrase (by decide) (by simpa using h))) (stable_action 1)
    (refuses_action 1)

theorem refuses_onEvent (event : String) : (onEvent event).Refuses Text.isBlank :=
  (((refuses_phrase (by decide)).atWordEdge_append).append _).append _

theorem stable_foreignKeyItem : foreignKeyItem.Stable :=
  stable_atStart.append (stable_phrase (by decide) (by decide))

theorem stable_primaryKeyItem : primaryKeyItem.Stable :=
  stable_atStart.append (stable_phrase (by decide) (by decide))

theorem stable_constraintItem : constraintItem.Stable :=
  (stable_atStart.append ((stable_word (by decide)).either ((stable_word (by decide)).either
    (stable_word (by decide))))).append stable_atWordEdge

theorem anchored_constraintItem : constraintItem.Anchored := (anchored_atStart.append _).append _

theorem stable_columnHead : columnHead.Stable :=
  stable_blanks (stable_atStart.append (stable_name 1)) (stable_wordRun.group 2) (refuses_group refuses_wordRun 2)

theorem anchored_columnHead : columnHead.Anchored := ((anchored_atStart.append _).append _).append _

theorem stable_primaryKeyPhrase : primaryKeyPhrase.Stable := stable_phrase (by decide) (by decide)

theorem refuses_primaryKeyPhrase : primaryKeyPhrase.Refuses Text.isBlank := refuses_phrase (by decide)

theorem stable_notNullPhrase : notNullPhrase.Stable := stable_phrase (by decide) (by decide)

theorem refuses_notNullPhrase : notNullPhrase.Refuses Text.isBlank := refuses_phrase (by decide)

theorem stable_autoIncrementPhrase : autoIncrementPhrase.Stable :=
  ((stable_word (by decide)).append (stable_exactly (by decide)).maybe).append (stable_word (by decide))

theorem refuses_autoIncrementPhrase : autoIncrementPhrase.Refuses Text.isBlank :=
  ((refuses_word (by decide)).append _).append _

/-! ## Lists of names -/

theorem isNameQuote_of_isBlank {c : Char} (h : Text.isBlank c = true) : nameList.isNameQuote c = false := by
  rw [nameList.isNameQuote, opensName_of_isBlank h, closesName_of_isBlank h]
  rfl

theorem stripQuotes_squeeze (s : List Char) :
    nameList.stripQuotes (Text.squeeze s) = Text.squeeze (nameList.stripQuotes s) := by
  have hDrop : ∀ t : List Char, (Text.squeeze t).dropWhile nameList.isNameQuote =
      Text.squeeze (t.dropWhile nameList.isNameQuote) :=
    Text.dropWhile_squeeze fun _ hc => isNameQuote_of_isBlank hc
  rw [nameList.stripQuotes, nameList.stripQuotes, hDrop, ← Text.squeeze_reverse, hDrop, Text.squeeze_reverse]

theorem splitOnP_comma_squeeze (s : List Char) :
    (Text.squeeze s).splitOnP (fun c => c == ',') = (s.splitOnP fun c => c == ',').map Text.squeeze :=
  Text.splitOnP_squeeze (fun _ => Text.beq_of_isBlank (by decide)) s

theorem nameList_squeeze (s : List Char) : nameList (Text.squeeze s) = (nameList s).map Text.squeeze := by
  have hEach : ∀ t, nameList.stripQuotes (Text.trim (Text.squeeze t)) =
      Text.squeeze (nameList.stripQuotes (Text.trim t)) := fun t => by
    rw [Text.trim_squeeze, stripQuotes_squeeze]
  rw [nameList, nameList, splitOnP_comma_squeeze, List.map_map, List.filter_map,
    List.filter_map, List.map_map]
  have hKept : ((fun t : List Char => !t.isEmpty) ∘
      ((fun t => nameList.stripQuotes (Text.trim t)) ∘ Text.squeeze)) =
        (fun t : List Char => !t.isEmpty) ∘ fun t => nameList.stripQuotes (Text.trim t) := by
    funext t
    simp only [Function.comp_apply, hEach, Text.isEmpty_squeeze]
  rw [hKept]
  exact List.map_congr_left fun t _ => hEach t

/-! ## Keys -/

end SqlSurvey.Ddl

namespace SqlSurvey

/-- A foreign key with its columns squeezed; the table and the actions are words with one space between. -/
def ForeignKey.squeezed (k : ForeignKey) : ForeignKey :=
  { k with column := Text.squeezed k.column, referencesColumn := Text.squeezed k.referencesColumn }

/-- An index with its columns squeezed. -/
def Index.squeezed (i : Index) : Index := { i with columns := i.columns.map Text.squeezed }

end SqlSurvey

namespace SqlSurvey.Ddl

open Pattern

variable {s : List Char}

theorem actionOn_squeeze {event : String} (h : isPhraseWord event = true) (s : List Char) :
    actionOn event (Text.squeeze s) = actionOn event s := by
  rw [actionOn, actionOn, (stable_onEvent h).find_squeeze (refuses_onEvent event), Option.map_map]
  refine congrArg (fun f => ((onEvent event).find s).map f) (funext fun k => ?_)
  rw [Function.comp_apply, Hit.groupText_squeeze, Text.collapse_squeeze]

/-- What the name of a table or column is kept as holds no blank. -/
theorem keepsSolid_name (m n : Nat) : (name n).KeepsSolid m :=
  ⟨⟨⟨trivial, trivial⟩, trivial, fun _ _ hc => Text.isWordChar_of_isBlank hc⟩, trivial, trivial⟩

theorem keepsSolid_keyword (n : Nat) (ls : List Char) : (keyword ls).KeepsSolid n := by
  induction ls with
  | nil => trivial
  | cons l ls ih => exact ⟨trivial, ih⟩

theorem keepsSolid_phrase (n : Nat) (first second : String) : (phrase first [second]).KeepsSolid n :=
  ⟨⟨keepsSolid_keyword n _, trivial⟩, keepsSolid_keyword n _⟩

theorem keepsSolid_ifNotExists (n : Nat) : ifNotExists.KeepsSolid n :=
  ⟨⟨⟨⟨keepsSolid_phrase n "IF" "NOT", trivial⟩, keepsSolid_keyword n _⟩, trivial⟩, trivial⟩

theorem keepsSolid_parenthesized {m n : Nat} (h : m ≠ n) : (parenthesized m).KeepsSolid n :=
  ⟨⟨trivial, trivial, fun hEq => absurd hEq h⟩, trivial⟩

theorem keepsSolid_gap (n : Nat) : gap.KeepsSolid n := ⟨trivial, trivial⟩

theorem readForeignKeys_squeeze (s : List Char) :
    readForeignKeys (Text.squeeze s) = (readForeignKeys s).map ForeignKey.squeezed := by
  have hTable : foreignKeyClause.KeepsSolid 2 :=
    ⟨⟨⟨⟨⟨⟨⟨⟨keepsSolid_phrase 2 _ _, keepsSolid_gap 2⟩, keepsSolid_parenthesized (by decide)⟩, keepsSolid_gap 2⟩,
      keepsSolid_keyword 2 _⟩, trivial⟩, keepsSolid_name 2 2⟩, keepsSolid_gap 2⟩,
      keepsSolid_parenthesized (by decide)⟩
  rw [readForeignKeys, readForeignKeys, stable_foreignKeyClause.find_squeeze refuses_foreignKeyClause]
  cases hFind : foreignKeyClause.find s with
  | none => rfl
  | some h =>
    have hWord := Text.squeeze_of_forall (isBlank_groupText hTable hFind)
    simp only [Option.map_some, Hit.groupText_squeeze, nameList_squeeze, List.zipWith_map, List.map_zipWith,
      Hit.squeeze_rest, actionOn_squeeze (by decide : isPhraseWord "DELETE" = true),
      actionOn_squeeze (by decide : isPhraseWord "UPDATE" = true), hWord, ForeignKey.squeezed,
      Text.squeezed_ofList]

theorem readPrimaryKey_squeeze (s : List Char) :
    readPrimaryKey (Text.squeeze s) = (readPrimaryKey s).map Text.squeezed := by
  rw [readPrimaryKey, readPrimaryKey, stable_primaryKeyClause.find_squeeze refuses_primaryKeyClause]
  cases primaryKeyClause.find s with
  | none => rfl
  | some h =>
    simp only [Option.map_some, Hit.groupText_squeeze, nameList_squeeze, List.map_map]
    exact List.map_congr_left fun t _ => (Text.squeezed_ofList t).symm

theorem readInlineReference?_squeeze {column : String} (hColumn : Text.squeezed column = column)
    (s : List Char) :
    readInlineReference? column (Text.squeeze s) =
      (readInlineReference? column s).map ForeignKey.squeezed := by
  have hSolid : ∀ n, inlineReference.KeepsSolid n := fun n =>
    ⟨⟨⟨⟨⟨⟨⟨⟨⟨trivial, keepsSolid_keyword n _⟩, trivial⟩, keepsSolid_name n 1⟩, keepsSolid_gap n⟩, trivial⟩,
      keepsSolid_gap n⟩, keepsSolid_name n 2⟩, keepsSolid_gap n⟩, trivial⟩
  rw [readInlineReference?, readInlineReference?, stable_inlineReference.find_squeeze refuses_inlineReference]
  cases hFind : inlineReference.find s with
  | none => rfl
  | some h =>
    have hWord := fun n => Text.squeeze_of_forall (isBlank_groupText (hSolid n) hFind)
    simp only [Option.map_some, Hit.groupText_squeeze, Hit.squeeze_rest,
      actionOn_squeeze (by decide : isPhraseWord "DELETE" = true),
      actionOn_squeeze (by decide : isPhraseWord "UPDATE" = true), ForeignKey.squeezed, hColumn,
      Text.squeezed_ofList, hWord]

/-! ## Indexes -/

theorem readIndex?_squeeze (s : List Char) :
    readIndex? (Text.squeeze s) = (readIndex? s).map fun p => (p.1, p.2.squeezed) := by
  have hSolid : ∀ n, n = 2 ∨ n = 3 → createIndexClause.KeepsSolid n := by
    intro n hn
    have hList : 4 ≠ n := by omega
    have hUnique : (group 1 (keyword "UNIQUE".toList ++ blanks)).KeepsSolid n :=
      ⟨⟨keepsSolid_keyword n _, trivial⟩, fun hEq => by omega⟩
    exact ⟨⟨⟨⟨⟨⟨⟨⟨⟨⟨⟨⟨keepsSolid_keyword n _, trivial⟩, hUnique, trivial⟩, keepsSolid_keyword n _⟩, trivial⟩,
      keepsSolid_ifNotExists n⟩,
      keepsSolid_name n 2⟩, trivial⟩, keepsSolid_keyword n _⟩, trivial⟩, keepsSolid_name n 3⟩,
      keepsSolid_gap n⟩, keepsSolid_parenthesized hList⟩
  rw [readIndex?, readIndex?, stable_createIndexClause.find_squeeze refuses_createIndexClause]
  cases hFind : createIndexClause.find s with
  | none => rfl
  | some h =>
    have hName := Text.squeeze_of_forall (isBlank_groupText (hSolid 2 (by simp)) hFind)
    have hTable := Text.squeeze_of_forall (isBlank_groupText (hSolid 3 (by simp)) hFind)
    have hColumns : ((Text.squeeze (h.groupText 4)).splitOnP fun c => c == ',').map
        (fun t => String.ofList (Text.trim t)) =
          (((h.groupText 4).splitOnP fun c => c == ',').map fun t => String.ofList (Text.trim t)).map
            Text.squeezed := by
      rw [splitOnP_comma_squeeze, List.map_map, List.map_map]
      refine List.map_congr_left fun t _ => ?_
      simp only [Function.comp_apply, Text.trim_squeeze, Text.squeezed_ofList]
    simp only [Option.map_some, Hit.groupText_squeeze, Hit.group?_squeeze, Option.isSome_map, hName, hTable,
      hColumns, Index.squeezed]

end SqlSurvey.Ddl
