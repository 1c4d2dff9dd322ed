import SqlSurvey.Proofs.Ddl.InlineReference
import SqlSurvey.Proofs.Ddl.Quoting

/-!
# References inside a column as they are written

REFERENCES with a table and a column, each in quotes or without them, with any blanks between and letters in any case.
The searches for the flags and for the default of the column pass over it, so that what they find before it and behind
it does not depend on the quotes. AUTOINCREMENT alone may be found in the names themselves.
-/

namespace SqlSurvey.Ddl

open Pattern

variable {p q : Pattern} {s : List Char} {c : Char} {word first second : String}

theorem avoids_keyword_blank (h : IsKeyword word) : (keyword word.toList).Avoids Text.isBlank :=
  avoids_keyword_of_isLettered (fun _ hc => Text.isWordChar_of_isBlank hc) (List.all_eq_true.2 h.2)

/-- Neither blanks nor a parenthesis go on with a name or close it. -/
theorem refuses_gap_append {p : Pattern} (hWord : p.Refuses Text.isWordChar) (hQuote : p.Refuses closesName) :
    (gap ++ p).Refuses Text.isWordChar ∧ (gap ++ p).Refuses closesName :=
  ⟨refuses_blanks.maybe_append hWord,
    (refuses_many fun c hc => isBlank_of_isNameQuote (by rw [nameList.isNameQuote, hc, Bool.or_true])).maybe_append
      hQuote⟩

theorem head?_gap_append (g : Gap) {d : Char} (hd : Text.isWordChar d = false ∧ closesName d = false) (s : List Char) :
    ∀ e ∈ (g.text ++ d :: s).head?, Text.isWordChar e = false ∧ closesName e = false := by
  intro e he
  rw [List.head?_append] at he
  rcases Option.or_eq_some_iff.1 he with he | ⟨-, he⟩
  · have hBlank := g.blank e (List.mem_of_mem_head? he)
    exact ⟨Text.isWordChar_of_isBlank hBlank, closesName_of_isBlank hBlank⟩
  · obtain rfl := Option.some_inj.1 he
    exact hd

/-- What begins with no word is not found where a keyword stands. -/
theorem hits_spelling_of_refuses (h : IsKeyword word) (w : Spelling word) (hp : p.Refuses Text.isWordChar)
    (last : Option Char) (s : List Char) : p.hits last (w.text ++ s) = [] := by
  obtain ⟨d, t, hText⟩ := List.exists_cons_of_ne_nil (w.ne_nil h)
  rw [hText]
  exact hp last d _ (w.isWordChar h d (by rw [hText]; exact List.mem_cons_self))

/-- A keyword and blanks are no name when what comes after the name is not found behind the keyword. -/
theorem hits_name_spelling (h : IsKeyword word) (n : Nat) (w : Spelling word) (b : Space)
    (hWord : p.Refuses Text.isWordChar) (hNone : ∀ last, p.hits last (b.text ++ s) = []) (last : Option Char) :
    (name n ++ p).hits last (w.text ++ (b.text ++ s)) = [] := by
  have hHead : ∀ c ∈ (b.text ++ s).head?, Text.isWordChar c = false ∧ closesName c = false := fun c hc => by
    have hBlank := b.isBlank_head s c hc
    exact ⟨Text.isWordChar_of_isBlank hBlank, closesName_of_isBlank hBlank⟩
  rw [takes_name n (w.ne_nil h) (w.isWordChar h) hHead hWord, hNone, List.map_nil]

/-- A reference to a column of a table, with the blanks before it. -/
structure WrittenReference where
  start : Space
  references : Spelling "REFERENCES"
  referencesEnd : Space
  table : WrittenName
  tableOrdinary : ¬ Spells "DEFAULT".toList table.name
  tableEnd : Gap
  column : ListedName
  columnOrdinary : ¬ Spells "DEFAULT".toList column.name

namespace WrittenReference

/-- The text of a reference after the blanks before it. -/
def clause (r : WrittenReference) : List Char :=
  r.references.text ++ (r.referencesEnd.text ++ (r.table.text ++ (r.tableEnd.text ++
    (['('] ++ (r.column.text ++ [')'])))))

/-- The text of a reference. -/
def text (r : WrittenReference) : List Char := r.start.text ++ r.clause

/-- The same reference without quotes. -/
def bare (r : WrittenReference) : WrittenReference := { r with
  table := r.table.bare
  column := r.column.bare }

variable (r : WrittenReference)

theorem isPart_clause : Sql.IsPart r.clause := by
  have hList := ListedName.isPart_parenthesized [r.column]
  rw [ListedName.list, List.map_singleton, List.intercalate_singleton] at hList
  exact (r.references.isPart (by decide)).append (r.referencesEnd.toGap.isPart.append
    (r.table.isPart.append (r.tableEnd.isPart.append hList)))

theorem lastOf_clause (last : Option Char) : lastOf last r.clause = some ')' := by
  have hText : r.clause = (r.references.text ++ (r.referencesEnd.text ++ (r.table.text ++ (r.tableEnd.text ++
      ('(' :: r.column.text))))) ++ [')'] := by simp [clause]
  rw [hText, lastOf, List.getLast?_concat, Option.some_or]

theorem isBlank_getLast_clause : ∀ d ∈ r.clause.getLast?, Text.isBlank d = false := by
  have hLast := r.lastOf_clause none
  rw [lastOf, Option.or_none] at hLast
  rw [hLast]
  decide

theorem isBlank_head_clause (s : List Char) : ∀ d ∈ (r.clause ++ s).head?, Text.isBlank d = false := by
  rw [clause, List.append_assoc]
  exact r.references.isBlank_head (by decide) _

/-! ## Searches that pass over it -/

/-- What begins with a word passes over a reference when it passes over the words of it. -/
theorem passesOver_clause_of_words (hp : p.Refuses fun c => !Text.isWordChar c)
    (hReferences : ∀ last t, p.PassesOver last r.references.text (r.referencesEnd.text ++ t))
    (hTable : ∀ last t, p.PassesOver last r.table.text (r.tableEnd.text ++ '(' :: t))
    (hColumn : ∀ last t, p.PassesOver last r.column.toWrittenName.text (r.column.after.text ++ ')' :: t))
    (last : Option Char) (s : List Char) : p.PassesOver last r.clause s := by
  have hMark : ∀ c, Text.isWordChar c = false → ∀ last t, p.PassesOver last [c] t := fun c hc _ _ =>
    hp.passesOver (by simpa using hc)
  have hName : ∀ last t, p.PassesOver last r.column.text (')' :: t) := fun _ _ =>
    ((r.column.before.passesOver hp _ _).append (hColumn _ _)).append (r.column.after.passesOver hp _ _)
  have hList : ∀ last, p.PassesOver last (['('] ++ (r.column.text ++ [')'])) s := fun _ =>
    (hMark '(' (by decide) _ _).append ((hName _ _).append (hMark ')' (by decide) _ _))
  exact (hReferences _ _).append_append ((r.referencesEnd.toGap.passesOver hp _ _).append
    ((hTable _ _).append_append ((r.tableEnd.passesOver hp _ _).append (hList _))))

/-- A keyword that blanks and another word must follow is passed over. -/
theorem passesOver_clause (h : IsKeyword word)
    (hNot : ¬ word.toList.map Text.lowerAscii <:+ "REFERENCES".toList.map Text.lowerAscii)
    (hq : q.Refuses fun c => !Text.isWordChar c) (last : Option Char) (s : List Char) :
    (keyword word.toList ++ (blanks ++ q)).PassesOver last r.clause s := by
  have hBlank : q.Refuses Text.isBlank := hq.mono fun c hc => by rw [Text.isWordChar_of_isBlank hc]; rfl
  have hMark : ∀ (g : Gap) {d : Char}, Text.isWordChar d = false ∧ Text.isBlank d = false → ∀ t last,
      (blanks ++ q).hits last (g.text ++ d :: t) = [] := fun g d hd t =>
    hits_blanks_append_gap g hBlank (by simpa using hd.2) fun last => hq last d t (by simpa using hd.1)
  refine r.passesOver_clause_of_words (refuses_keyword_blanks h q) (fun last t => ?_) (fun last t => ?_)
    (fun last t => ?_) last s
  · exact passesOver_spelling (by decide) h hNot r.references (r.referencesEnd.isWordChar_head t) q last
  · exact r.table.passesOver h (r.tableEnd.isWordChar_head (by simp; decide))
      (hMark r.tableEnd (by decide) t) last
  · exact r.column.toWrittenName.passesOver h (r.column.after.isWordChar_head (by simp; decide))
      (hMark r.column.after (by decide) t) last

/-- So is DEFAULT, which neither name spells. -/
theorem passesOver_clause_default (q : Pattern) (last : Option Char) (s : List Char) :
    (atWordEdge ++ (keyword "DEFAULT".toList ++ (blanks ++ q))).PassesOver last r.clause s := by
  have h : IsKeyword "DEFAULT" := by decide
  refine r.passesOver_clause_of_words (refuses_keyword_blanks h q).atWordEdge_append (fun last t => ?_)
    (fun last t => ?_) (fun last t => ?_) last s
  · exact passesOver_word_of_not_spells h (r.references.isWordChar (by decide)) (r.referencesEnd.isWordChar_head t)
      (r.references.not_spells (by decide) h (by decide)) q last
  · exact r.table.passesOver_of_not_spells h (r.tableEnd.isWordChar_head (by simp; decide))
      r.tableOrdinary q last
  · exact r.column.toWrittenName.passesOver_of_not_spells h
      (r.column.after.isWordChar_head (by simp; decide)) r.columnOrdinary q last

/-! ## Flags around it -/

theorem exists_start (r : WrittenReference) : ∃ b c, r.start.text = b ++ [c] ∧ Text.isBlank c = true := by
  obtain ⟨b, c, hStart⟩ := (List.eq_nil_or_concat' r.start.text).resolve_left r.start.nonempty
  exact ⟨b, c, hStart, r.start.blank c (by rw [hStart]; simp)⟩

/-- No keyword with another first letter stands where the reference begins. -/
theorem hits_keyword_clause (h : IsKeyword word)
    (hLetter : "REFERENCES".toList.head?.map Text.lowerAscii ≠ word.toList.head?.map Text.lowerAscii)
    (last : Option Char) (s : List Char) : (keyword word.toList).hits last (r.clause ++ s) = [] := by
  rw [clause, List.append_assoc]
  exact r.references.hits_keyword_eq_nil (by decide) h hLetter last _

/-- A phrase is found before the reference or behind it, and its letters are not in the reference. -/
theorem occursIn_phrase_append (hFirst : IsKeyword first) (hSecond : IsKeyword second)
    (hNot : ¬ first.toList.map Text.lowerAscii <:+ "REFERENCES".toList.map Text.lowerAscii)
    (hLetter : "REFERENCES".toList.head?.map Text.lowerAscii ≠ second.toList.head?.map Text.lowerAscii)
    (u s : List Char) : (phrase first [second]).occursIn (u ++ (r.text ++ s)) =
      ((phrase first [second]).occursIn (u ++ r.start.text) || (phrase first [second]).occursIn s) := by
  obtain ⟨b, c, hStart, hc⟩ := r.exists_start
  have hSettled : (phrase first [second]).SettledBefore c (r.clause ++ s) :=
    settledBefore_append_blanks_append (avoids_keyword_blank hFirst) (avoids_keyword_blank hSecond) hc
      (r.isBlank_head_clause s) (fun last => r.hits_keyword_clause hSecond hLetter last s) (hits_keyword_nil hSecond)
  have hForward : (phrase first [second]).Forward := ⟨⟨forward_keyword _, trivial⟩, forward_keyword _⟩
  have hOver : (phrase first [second]).PassesOver (lastOf none (u ++ b ++ [c])) r.clause s :=
    passesOver_append_assoc (keyword second.toList) |>.2 (r.passesOver_clause hFirst hNot
      (hSecond.refuses fun d hd => by simpa using hd) _ s)
  have hText : u ++ (r.text ++ s) = (u ++ b ++ [c]) ++ (r.clause ++ s) := by simp [text, hStart]
  have hBefore : u ++ r.start.text = u ++ b ++ [c] := by simp [hStart]
  have hNil : ∀ last, (phrase first [second]).hits last [] = [] := fun last =>
    hits_append_eq_nil (hits_append_eq_nil (hits_keyword_nil hFirst last))
  rw [occursIn, find, hText, hSettled.seam hNil, findFrom_append hOver, hForward.findFrom_eq _ none s, hBefore,
    Option.isSome_or, Option.isSome_map]
  rfl

theorem refuses_autoIncrement_marks : autoIncrementPhrase.Refuses fun c => !Text.isWordChar c :=
  (((by decide : IsKeyword "AUTO").refuses fun c hc => by simpa using hc).append _).append _

/-- No A stands in REFERENCES. -/
theorem occursIn_autoIncrement_references (w : Spelling "REFERENCES") : autoIncrementPhrase.occursIn w.text = false := by
  have hLetters : ∀ l ∈ "REFERENCES".toList, l.toLower.isAlpha = true ∧ Text.lowerAscii l ≠ Text.lowerAscii 'A' := by
    decide
  have hRefuses : autoIncrementPhrase.Refuses fun c => !Text.sameLetter 'A' c :=
    ((refuses_keyword (l := 'A') fun c hc => by simpa using hc).append _).append _
  have hNone : autoIncrementPhrase.find w.text = none := by
    refine findFrom_of_refuses hRefuses (fun _ => rfl) fun c hc => ?_
    obtain ⟨l, hl, hSame⟩ := exists_of_mem_forall₂ w.spells hc
    rw [Bool.not_eq_true', ← Bool.not_eq_true]
    exact fun hA => (hLetters l hl).2
      (Text.lowerAscii_eq_of_sameLetter (hLetters l hl).1 (show 'A'.toLower.isAlpha = true by decide) hSame hA)
  rw [occursIn, hNone]
  rfl

/-- AUTOINCREMENT is found before the reference, in its names or behind it. -/
theorem occursIn_autoIncrement_append (u s : List Char) :
    autoIncrementPhrase.occursIn (u ++ (r.text ++ s)) = (autoIncrementPhrase.occursIn u ||
      (autoIncrementPhrase.occursIn r.table.name || (autoIncrementPhrase.occursIn r.column.name ||
        autoIncrementPhrase.occursIn s))) := by
  have hAppend : ∀ {g : List Char}, g ≠ [] → (∀ d ∈ g, Text.isWordChar d = false) → ∀ a t,
      autoIncrementPhrase.occursIn (a ++ (g ++ t)) =
        (autoIncrementPhrase.occursIn a || autoIncrementPhrase.occursIn t) := fun hNonempty hg =>
    occursIn_append_marks forward_autoIncrementPhrase (avoids_autoIncrementPhrase fun c hc => by simpa using hc)
      refuses_autoIncrement_marks hNonempty hg
  have hQuotes : ∀ k : Quoting, ∀ d ∈ k.opening ++ k.closing, Text.isWordChar d = false := by
    intro k
    cases k <;> decide
  have hBlank : ∀ (g : Gap), ∀ d ∈ g.text, Text.isWordChar d = false := fun g d hd =>
    Text.isWordChar_of_isBlank (g.blank d hd)
  -- the names are what stands between runs of blanks, quotes and parentheses
  have hText : u ++ (r.text ++ s) = u ++ (r.start.text ++ (r.references.text ++
      ((r.referencesEnd.text ++ r.table.quoting.opening) ++ (r.table.name ++
        ((r.table.quoting.closing ++ r.tableEnd.text ++ ['('] ++ r.column.before.text ++ r.column.quoting.opening) ++
          (r.column.name ++ ((r.column.quoting.closing ++ r.column.after.text ++ [')']) ++ s))))))) := by
    simp [text, clause, WrittenName.text, ListedName.text]
  have hBegin : ∀ d ∈ r.referencesEnd.text ++ r.table.quoting.opening, Text.isWordChar d = false := by
    intro d hd
    rcases List.mem_append.1 hd with hd | hd
    · exact hBlank _ d hd
    · exact hQuotes _ d (List.mem_append_left _ hd)
  have hBetween : ∀ d ∈ r.table.quoting.closing ++ r.tableEnd.text ++ ['('] ++ r.column.before.text ++
      r.column.quoting.opening, Text.isWordChar d = false := by
    intro d hd
    simp only [List.mem_append, List.mem_singleton] at hd
    rcases hd with (((hd | hd) | rfl) | hd) | hd
    · exact hQuotes _ d (List.mem_append_right _ hd)
    · exact hBlank _ d hd
    · decide
    · exact hBlank _ d hd
    · exact hQuotes _ d (List.mem_append_left _ hd)
  have hEnd : ∀ d ∈ r.column.quoting.closing ++ r.column.after.text ++ [')'], Text.isWordChar d = false := by
    intro d hd
    simp only [List.mem_append, List.mem_singleton] at hd
    rcases hd with (hd | hd) | rfl
    · exact hQuotes _ d (List.mem_append_right _ hd)
    · exact hBlank _ d hd
    · decide
  rw [hText, hAppend r.start.nonempty (hBlank r.start.toGap), hAppend (by simp [r.referencesEnd.nonempty]) hBegin,
    hAppend (by simp) hBetween, hAppend (by simp) hEnd, occursIn_autoIncrement_references, Bool.false_or]

/-! ## The foreign key -/

/-- What comes after REFERENCES and blanks is taken to the end of the reference. -/
theorem takes_afterReferences (s : List Char) :
    afterReferences.Takes empty (r.table.text ++ (r.tableEnd.text ++ (['('] ++ (r.column.before.text ++
      (r.column.toWrittenName.text ++ (r.column.after.text ++ [')']))))))
      [(1, r.table.name), (2, r.column.name)] s := by
  have hParen : ∀ d ∈ ['(', ')'], (exactly d).Refuses Text.isWordChar ∧ (exactly d).Refuses closesName ∧
      (exactly d).Refuses Text.isBlank ∧ Text.isWordChar d = false ∧ closesName d = false := by
    intro d hd
    have hAll : ∀ d ∈ ['(', ')'], Text.isWordChar d = false ∧ closesName d = false ∧ Text.isBlank d = false := by
      decide
    obtain ⟨hWord, hQuote, hBlank⟩ := hAll d hd
    exact ⟨refuses_exactly hWord, refuses_exactly hQuote, refuses_exactly hBlank, hWord, hQuote⟩
  obtain ⟨hOpenWord, hOpenQuote, hOpenBlank, hOpenChar⟩ := hParen '(' (by decide)
  obtain ⟨hCloseWord, hCloseQuote, hCloseBlank, hCloseChar⟩ := hParen ')' (by decide)
  have hClose : (exactly ')').Takes empty [')'] [] s := takes_char rfl _ _
  have hAfter := (r.column.after.takes (by simp; decide) (hCloseBlank.append empty)).append hClose
  have hEnd := refuses_gap_append hCloseWord hCloseQuote
  have hColumn := (r.column.toWrittenName.takes (q := (gap ++ exactly ')') ++ empty) 2 (hEnd.1.append _)
    (hEnd.2.append _) (by
      rw [List.append_assoc]
      exact head?_gap_append r.column.after hCloseChar s)).append hAfter
  have hInner := (r.column.before.takes (by
    rw [List.append_assoc]
    exact r.column.toWrittenName.isSolid.head _) (((refuses_name 2).append _).append empty)).append hColumn
  have hOpen := (takes_char (A := fun d => d == '(') (c := '(') rfl _ _).append hInner
  have hBegin := refuses_gap_append (hOpenWord.append (gap ++ (name 2 ++ (gap ++ exactly ')'))))
    (hOpenQuote.append (gap ++ (name 2 ++ (gap ++ exactly ')'))))
  have hTableEnd := (r.tableEnd.takes (by simp; decide) ((hOpenBlank.append _).append empty)).append hOpen
  exact (r.table.takes 1 (hBegin.1.append _) (hBegin.2.append _) (by
    rw [List.append_assoc]
    exact head?_gap_append r.tableEnd hOpenChar _)).append hTableEnd

/-- The reference is found where it stands. -/
theorem findFrom_referencesPhrase (hc : Text.isBlank c = true) (s : List Char) :
    (atWordEdge ++ referencesPhrase).findFrom (some c) (r.clause ++ s) =
      some ⟨r.clause, [(1, r.table.name), (2, r.column.name)], s⟩ := by
  have hText : r.clause = r.references.text ++ (r.referencesEnd.text ++ (r.table.text ++ (r.tableEnd.text ++
      (['('] ++ (r.column.before.text ++ (r.column.toWrittenName.text ++ (r.column.after.text ++ [')']))))))) := by
    simp [clause, ListedName.text]
  have hSpace := (r.referencesEnd.takes (q := afterReferences ++ empty) (by
    rw [List.append_assoc]
    exact r.table.isSolid.head _) (((refuses_name 1).append _).append empty)).append (r.takes_afterReferences s)
  have hTakes : referencesPhrase.Takes empty _ _ s := (r.references.takes _ _).append hSpace
  have hHits := hTakes.hits (some c)
  have hEdge : wordEdge (some c) (r.clause ++ s) = true := by
    obtain ⟨d, w, hWord⟩ := List.exists_cons_of_ne_nil (r.references.ne_nil (by decide))
    have hd := r.references.isWordChar (by decide) d (by rw [hWord]; exact List.mem_cons_self)
    rw [clause, hWord]
    simp [wordEdge, wordEdge.isWord, Text.isWordChar_of_isBlank hc, hd]
  rw [← hText] at hHits
  refine findFrom_of_here ?_
  rw [here, hits_atWordEdge_append, if_pos hEdge, hHits]
  rfl

/-! ## A reference that has begun before -/

/-- What begins with no word is not found where the reference begins. -/
theorem hits_clause_of_refuses (hp : p.Refuses Text.isWordChar) (last : Option Char) (s : List Char) :
    p.hits last (r.clause ++ s) = [] := by
  rw [clause, List.append_assoc]
  exact hits_spelling_of_refuses (by decide) r.references hp last _

/-- REFERENCES is no name that something else than a name follows. -/
theorem hits_clause_name (n : Nat) (hWord : p.Refuses Text.isWordChar) (hName : p.Refuses isNameChar)
    (hBlank : p.Refuses Text.isBlank) (last : Option Char) (s : List Char) :
    (name n ++ (gap ++ p)).hits last (r.clause ++ s) = [] := by
  have hTable : ∀ last t, p.hits last (r.table.text ++ t) = [] := by
    intro last t
    obtain ⟨e, w, hText⟩ := List.exists_cons_of_ne_nil r.table.isSolid.1
    rw [hText]
    exact hName last e _ (r.table.isNameChar e (by rw [hText]; exact List.mem_cons_self))
  have hSpace : ∀ t last, (gap ++ p).hits last (r.referencesEnd.text ++ (r.table.text ++ t)) = [] := fun t last => by
    rw [r.referencesEnd.toGap.takes (r.table.isSolid.head t) hBlank last, hTable, List.map_nil]
  rw [clause, List.append_assoc, List.append_assoc, List.append_assoc]
  exact hits_name_spelling (by decide) n r.references r.referencesEnd (refuses_blanks.maybe_append hWord) (hSpace _) last

/-- Nothing of a reference that has begun before depends on the reference. -/
theorem settledBefore_referencesPhrase (hc : Text.isBlank c = true) (s : List Char) :
    (atWordEdge ++ referencesPhrase).SettledBefore c (r.clause ++ s) := by
  have hAvoids : ∀ {q : Pattern}, q.Avoids Text.isBlank → q.SettledBefore c (r.clause ++ s) := fun hq =>
    settledBefore_of_avoids hq hc _
  have hBlanks := settledBefore_many .longest c (r.isBlank_head_clause s)
  have hGap : gap.SettledBefore c (r.clause ++ s) := SettledBefore.either hBlanks (settledBefore_empty c _)
  have hName : ∀ n, (name n).SettledBefore c (r.clause ++ s) := fun n =>
    hAvoids ⟨⟨⟨fun _ hd => opensName_of_isBlank hd, trivial⟩, fun _ hd => Text.isWordChar_of_isBlank hd⟩,
      fun _ hd => closesName_of_isBlank hd, trivial⟩
  have hMark : ∀ d ∈ ['(', ')'], (exactly d).SettledBefore c (r.clause ++ s) ∧ (exactly d).Refuses Text.isWordChar ∧
      (exactly d).Refuses isNameChar ∧ (exactly d).Refuses Text.isBlank := by
    intro d hd
    have hAll : ∀ d ∈ ['(', ')'], Text.isWordChar d = false ∧ isNameChar d = false ∧ Text.isBlank d = false := by
      decide
    obtain ⟨hWord, hNameChar, hBlank⟩ := hAll d hd
    refine ⟨hAvoids (show ∀ e, _ → _ from fun e he => ?_), refuses_exactly hWord, refuses_exactly hNameChar,
      refuses_exactly hBlank⟩
    rw [beq_eq_false_iff_ne]
    rintro rfl
    exact Bool.false_ne_true (hBlank.symm.trans he)
  have hStop : ∀ {q : Pattern}, q.Refuses Text.isWordChar → ∀ last, q.hits last (r.clause ++ s) = [] := fun hq last =>
    r.hits_clause_of_refuses hq last s
  obtain ⟨hClose, hCloseWord, hCloseName, hCloseBlank⟩ := hMark ')' (by decide)
  obtain ⟨hOpen, hOpenWord, hOpenName, hOpenBlank⟩ := hMark '(' (by decide)
  -- part by part from the end, none of them begins where the reference does
  have hColumnEnd := hGap.append hClose (hStop hCloseWord) fun _ => rfl
  have hColumn := (hName 2).append hColumnEnd (hStop (refuses_blanks.maybe_append hCloseWord)) fun _ => rfl
  have hColumnNone := fun last => r.hits_clause_name 2 hCloseWord hCloseName hCloseBlank last s
  have hInner := hGap.append hColumn hColumnNone fun _ => rfl
  have hInnerNone : ∀ last, (gap ++ (name 2 ++ (gap ++ exactly ')'))).hits last (r.clause ++ s) = [] := fun last => by
    refine (hits_maybe_append blanks _ last _).trans ?_
    rw [hits_append_eq_nil (hits_blanks_eq_nil (r.isBlank_head_clause s) last), hColumnNone, List.append_nil]
  have hList := hOpen.append hInner hInnerNone fun _ => rfl
  have hTableEnd := hGap.append hList (hStop (hOpenWord.append _)) fun _ => rfl
  have hTable := (hName 1).append hTableEnd (hStop (refuses_blanks.maybe_append (hOpenWord.append _))) fun _ => rfl
  have hSpace := hBlanks.append hTable (fun last =>
    r.hits_clause_name 1 (hOpenWord.append _) (hOpenName.append _) (hOpenBlank.append _) last s) fun _ => rfl
  exact settledBefore_atWordEdge_append ((hAvoids (avoids_keyword_blank (by decide))).append hSpace
    (hStop (refuses_blanks.append _)) fun _ => rfl)

end WrittenReference

end SqlSurvey.Ddl
