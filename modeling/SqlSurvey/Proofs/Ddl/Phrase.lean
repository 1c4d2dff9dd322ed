import SqlSurvey.Ddl.Phrase
import SqlSurvey.Proofs.Pattern.Search
import SqlSurvey.Proofs.Text.Basic

/-!
# How phrases of definitions are read

Phrases, identifiers and lists in parentheses take their text in one way when what comes next cannot be
taken for more of them.
-/

namespace SqlSurvey.Ddl

open Pattern

variable {q : Pattern} {last : Option Char} {s w : List Char}

/-! ## Letters and blanks -/

/-- A word that begins with a letter. -/
def beginsWithLetter (word : String) : Bool := word.toList.head?.any fun l => l.toLower.isAlpha

theorem exists_of_beginsWithLetter {word : String} (h : beginsWithLetter word = true) :
    ∃ l ls, word.toList = l :: ls ∧ l.toLower.isAlpha = true := by
  unfold beginsWithLetter at h
  cases hw : word.toList with
  | nil => simp [hw] at h
  | cons l ls => exact ⟨l, ls, rfl, by simpa [hw] using h⟩

/-- Keywords do not begin with a blank. -/
theorem refuses_keyword_blank {word : String} (h : beginsWithLetter word = true) :
    (keyword word.toList).Refuses Text.isBlank := by
  obtain ⟨l, ls, hWord, hl⟩ := exists_of_beginsWithLetter h
  rw [hWord]
  refine refuses_keyword fun c hc => ?_
  rw [← Bool.not_eq_true]
  intro hlc
  simpa [Text.isWordChar_of_isBlank hc] using Text.isWordChar_of_sameLetter hl hlc

/-- What stands for a keyword does not begin with a blank. -/
theorem isBlank_head_of_spells {word : String} {t : List Char} (h : beginsWithLetter word = true)
    (ht : Spells word.toList t) : ∀ c ∈ (t ++ s).head?, Text.isBlank c = false := by
  obtain ⟨l, ls, hWord, hl⟩ := exists_of_beginsWithLetter h
  rw [hWord] at ht
  cases ht with
  | @cons _ c _ t hc _ =>
    have hBlank := Text.isBlank_of_isWordChar (Text.isWordChar_of_sameLetter hl hc)
    simpa using hBlank

/-- Blanks are no part of a word. -/
theorem refuses_blanks : blanks.Refuses Text.isWordChar :=
  refuses_many fun _ hc => Text.isBlank_of_isWordChar hc

/-- One space before something that does not begin with a blank. -/
theorem takes_space (hs : ∀ c ∈ s.head?, Text.isBlank c = false) (q : Pattern) :
    blanks.Takes q [' '] [] s :=
  takes_many_singleton (by decide) hs q

/-- Two keywords with one space between. -/
theorem takes_phrase {first second : String} {t u : List Char} (ht : Spells first.toList t)
    (hu : Spells second.toList u) (hSecond : beginsWithLetter second = true) (q : Pattern) (s : List Char) :
    (phrase first [second]).Takes q (t ++ [' '] ++ u) [] s := by
  exact ((takes_keyword ht _ _).append (takes_space (isBlank_head_of_spells hSecond hu) _)).append
    (takes_keyword hu q s)

/-! ## Identifiers -/

theorem isWordChar_of_opensName {c : Char} (h : opensName c = true) : Text.isWordChar c = false := by
  simp only [opensName, Bool.or_eq_true, beq_iff_eq] at h
  rcases h with (rfl | rfl) | rfl <;> decide

theorem isWordChar_of_closesName {c : Char} (h : closesName c = true) : Text.isWordChar c = false := by
  simp only [closesName, Bool.or_eq_true, beq_iff_eq] at h
  rcases h with (rfl | rfl) | rfl <;> decide

theorem refuses_opensName : (char opensName).Refuses Text.isWordChar := by
  refine refuses_char fun c hc => ?_
  rw [← Bool.not_eq_true]
  intro h
  simp [isWordChar_of_opensName h] at hc

theorem refuses_closesName : (char closesName).Refuses Text.isWordChar := by
  refine refuses_char fun c hc => ?_
  rw [← Bool.not_eq_true]
  intro h
  simp [isWordChar_of_closesName h] at hc

theorem opensName_of_isBlank {c : Char} (h : Text.isBlank c = true) : opensName c = false := by
  rw [← Bool.not_eq_true]
  intro hc
  simp only [opensName, Bool.or_eq_true, beq_iff_eq] at hc
  rcases hc with (rfl | rfl) | rfl <;> exact absurd h (by decide)

theorem closesName_of_isBlank {c : Char} (h : Text.isBlank c = true) : closesName c = false := by
  rw [← Bool.not_eq_true]
  intro hc
  simp only [closesName, Bool.or_eq_true, beq_iff_eq] at hc
  rcases hc with (rfl | rfl) | rfl <;> exact absurd h (by decide)

theorem refuses_group {A : Char → Bool} {p : Pattern} (hp : p.Refuses A) (n : Nat) : (group n p).Refuses A := by
  intro last c r hc
  rw [hits_group, hp last c r hc, List.map_nil]

theorem refuses_wordRun : word.Refuses Text.isBlank := refuses_many fun _ hc => Text.isWordChar_of_isBlank hc

theorem refuses_name (n : Nat) : (name n).Refuses Text.isBlank :=
  ((refuses_char fun _ hc => opensName_of_isBlank hc).maybe_append (refuses_group refuses_wordRun n)).append _

/-- A name without quotes is a whole word. -/
theorem takes_name (n : Nat) (hw : w ≠ []) (hWord : ∀ c ∈ w, Text.isWordChar c = true)
    (hs : ∀ c ∈ s.head?, Text.isWordChar c = false ∧ closesName c = false)
    (hq : q.Refuses Text.isWordChar) : (name n).Takes q w [(n, w)] s := by
  obtain ⟨c, v, rfl⟩ := List.exists_cons_of_ne_nil hw
  have hc : Text.isWordChar c = true := hWord c List.mem_cons_self
  have hOpen : (maybe (char opensName)).Takes (group n word ++ (maybe (char closesName) ++ q)) [] []
      ((c :: v) ++ s) :=
    takes_maybe_nil fun last => hits_append_eq_nil (refuses_opensName last c _ hc)
  have hClose : (maybe (char closesName)).Takes q [] [] s := by
    refine takes_maybe_nil fun last => hits_append_eq_nil ?_
    cases s with
    | nil => rfl
    | cons d s => simp [hits, (hs d rfl).2]
  have hWordTakes : (group n word).Takes (maybe (char closesName) ++ q) (c :: v) [(n, c :: v)] ([] ++ s) :=
    takes_group_many n hw hWord (fun d hd => (hs d hd).1) (refuses_closesName.maybe_append hq)
  have hName := (hOpen.append hWordTakes).append hClose
  rw [List.nil_append, List.append_nil] at hName
  exact hName

/-! ## Lists in parentheses -/

/-- A list in parentheses lasts to the first closing one. -/
theorem takes_parenthesized (n : Nat) {b : List Char} (hb : b ≠ []) (hClose : ')' ∉ b) (q : Pattern)
    (s : List Char) : (parenthesized n).Takes q ('(' :: b ++ [')']) [(n, b)] s := by
  have hAll : ∀ c ∈ b, (c != ')') = true := fun c hc => by
    simpa using fun h : c = ')' => hClose (h ▸ hc)
  have hEnd : (exactly ')' ++ q).Refuses fun c => c != ')' :=
    (refuses_char fun c hc => by simpa using hc).append q
  have hInner : (group n (many (fun c => c != ')') .longest)).Takes (exactly ')' ++ q) b [(n, b)]
      ([')'] ++ s) := takes_group_many n hb hAll (by simp) hEnd
  exact ((takes_char (by rfl) _ _).append hInner).append (takes_char (by rfl) q s)

theorem refuses_parenthesized {A : Char → Bool} (n : Nat) (h : A '(' = false) : (parenthesized n).Refuses A :=
  ((refuses_exactly h).append _).append _

/-! ## IF NOT EXISTS -/

/-- A name after which no NOT comes is no part of IF NOT EXISTS, even if it is that first word. -/
theorem takes_ifNotExists_nil {c : Char} {t : List Char} (hWord : ∀ d ∈ w, Text.isWordChar d = true)
    (hBlank : Text.isBlank c = false) (hNot : Text.sameLetter 'N' c = false) (q : Pattern) :
    ifNotExists.Takes q [] [] (w ++ ' ' :: c :: t) := by
  refine takes_maybe_nil fun last => ?_
  have hLetters : ∀ l ∈ "IF".toList, ∀ d, Text.sameLetter l d = true → Text.isWordChar d = true := by
    have hAlpha : ∀ l ∈ "IF".toList, l.toLower.isAlpha = true := by decide
    exact fun l hl d hd => Text.isWordChar_of_sameLetter (hAlpha l hl) hd
  have hBlanks : (blanks ++ keyword "NOT".toList).Refuses Text.isWordChar := refuses_blanks.append _
  -- after the blank, the next word does not begin as it should
  have hNext : ∀ last, (blanks ++ keyword "NOT".toList).hits last (' ' :: c :: t) = [] := by
    intro last
    have hSpace : blanks.Takes (keyword "NOT".toList) [' '] [] (c :: t) :=
      takes_space (by simpa using hBlank) _
    have hNone : (keyword "NOT".toList).hits (lastOf last [' ']) (c :: t) = [] :=
      hits_append_eq_nil (p := char (Text.sameLetter 'N')) (by rw [hits, hNot]; rfl)
    rw [show ' ' :: c :: t = [' '] ++ c :: t from rfl, hSpace last, hNone, List.map_nil]
  have hHead : ((keyword "IF".toList ++ blanks) ++ keyword "NOT".toList).hits last
      (w ++ ' ' :: c :: t) = [] := by
    rw [hits_append_assoc, hits_keyword_append_word hLetters hWord (by simp; decide)
      (fun l d r _ hd => hBlanks (some l) d r hd) (.inl (by decide)), hNext, List.map_nil, ite_self]
  exact hits_append_eq_nil (hits_append_eq_nil (hits_append_eq_nil (hits_append_eq_nil hHead)))

end SqlSurvey.Ddl
