import SqlSurvey.Proofs.Pattern.Seam
import SqlSurvey.Proofs.Pattern.Written

/-!
# Searching up to the beginning of a word

Patterns of keywords with blanks between take blanks and letters alike, so no class of characters separates what
they find from what follows. A blank before a word does, when the word is not the next one of the pattern: no hit
that begins before the word depends on it. Inside a text such patterns pass over the words that are not theirs.
-/

namespace SqlSurvey.Pattern

variable {p q : Pattern} {A : Char → Bool} {last : Option Char} {a b s w : List Char} {c : Char} {word other : String}

/-! ## A boundary -/

/-- After the character `c`, no hit that has begun before depends on the text `s`. -/
def SettledBefore (p : Pattern) (c : Char) (s : List Char) : Prop :=
  ∀ last a, p.hits last (a ++ c :: s) = (p.hits last (a ++ [c])).map (extend s)

theorem settledBefore_of_avoids (hp : p.Avoids A) (hc : A c = true) (s : List Char) : p.SettledBefore c s := by
  intro last a
  have hHead : ∀ t : List Char, ∀ d ∈ (c :: t).head?, A d = true := by simpa using hc
  rw [hits_append_of_avoids hp a (hHead s), hits_append_of_avoids hp a (hHead []), List.map_map]
  refine congrArg (fun f => (p.hits last a).map f) (funext fun h => ?_)
  rw [Function.comp_apply, extend_extend]
  rfl

theorem settledBefore_many (preference : Preference) (c : Char) (hs : ∀ d ∈ s.head?, A d = false) :
    (many A preference).SettledBefore c s := by
  intro last a
  have hRun : runHits A (a ++ c :: s) = (runHits A (a ++ [c])).map (extend s) := by
    rw [← runHits_append_of_not A (a ++ [c]) hs, List.append_assoc]
    rfl
  cases preference with
  | longest => rw [hits, hits, hRun, List.map_reverse]
  | shortest => rw [hits, hits, hRun]

theorem settledBefore_empty (c : Char) (s : List Char) : empty.SettledBefore c s := fun last a => by
  simp [hits_empty, extend]

theorem settledBefore_atWordEdge_append (hp : p.SettledBefore c s) : (atWordEdge ++ p).SettledBefore c s := by
  intro last a
  have hEdge : wordEdge last (a ++ c :: s) = wordEdge last (a ++ [c]) := by cases a <;> rfl
  rw [hits_atWordEdge_append, hits_atWordEdge_append, hEdge, hp last a]
  split
  · rfl
  · rfl

theorem SettledBefore.either (hp : p.SettledBefore c s) (hq : q.SettledBefore c s) :
    (either p q).SettledBefore c s := by
  intro last a
  rw [hits_either, hits_either, hp last a, hq last a, List.map_append]

/-- A hit leaves the whole text behind the character `c`, or what follows is looked at by the second pattern. -/
theorem SettledBefore.append (hp : p.SettledBefore c s) (hq : q.SettledBefore c s)
    (hs : ∀ last, q.hits last s = []) (hNil : ∀ last, q.hits last [] = []) : (p ++ q).SettledBefore c s := by
  intro last a
  rw [hits_append, hits_append, hp last a, List.flatMap_map, List.map_flatMap]
  refine List.flatMap_congr fun h hh => ?_
  show (q.hits (lastOf last h.text) (h.rest ++ s)).map (extend s h).andThen = _
  have hRest : (q.hits (lastOf last h.text) (h.rest ++ s)) =
      (q.hits (lastOf last h.text) h.rest).map (extend s) := by
    -- what is left is empty or ends with the same character
    rcases List.suffix_concat_iff.1 ⟨h.text, text_append_rest hh⟩ with hEmpty | ⟨u, hu, -⟩
    · rw [hEmpty, List.nil_append, hs, hNil, List.map_nil]
    · rw [hu, List.append_assoc]
      exact hq _ u
  rw [hRest, List.map_map, List.map_map]
  rfl

/-- The search before the boundary and the search behind it are two searches. -/
theorem SettledBefore.seam (hp : p.SettledBefore c s) (hNil : ∀ last, p.hits last [] = []) (a : List Char) :
    p.Seam (a ++ [c]) s := by
  intro last
  induction a generalizing last with
  | nil =>
    have hHits := hp last []
    rw [List.nil_append] at hHits
    simp only [List.nil_append, List.cons_append, findFrom, here]
    rw [hHits, hNil, List.head?_map, List.head?_nil, Option.or_none]
    rfl
  | cons d a ih =>
    have hHits := hp last (d :: a)
    rw [List.cons_append, List.cons_append] at hHits
    have hRest := ih (some d)
    rw [List.append_assoc, List.singleton_append] at hRest
    rw [List.cons_append, List.cons_append, List.append_assoc, List.singleton_append, findFrom, here, hHits,
      List.head?_map, hRest, findFrom, here, lastOf_cons, Option.map_or, Option.or_assoc]

/-- Nothing is found before the boundary, whatever comes behind it, when nothing is found without that. -/
theorem SettledBefore.passesOver (hp : p.SettledBefore c s) (h : p.findFrom last (a ++ [c]) = none) :
    p.PassesOver last (a ++ [c]) s := by
  induction a generalizing last with
  | nil =>
    rw [List.nil_append, findFrom, Option.or_eq_none_iff, here, List.head?_eq_none_iff] at h
    have hHits := hp last []
    rw [List.nil_append, List.nil_append, h.1, List.map_nil] at hHits
    exact ⟨hHits, trivial⟩
  | cons d a ih =>
    rw [List.cons_append, findFrom, Option.or_eq_none_iff, here, List.head?_eq_none_iff] at h
    have hHits := hp last (d :: a)
    rw [List.cons_append, List.cons_append, h.1, List.map_nil] at hHits
    refine ⟨?_, ih h.2⟩
    show p.hits last (d :: (a ++ [c] ++ s)) = []
    rw [List.append_assoc]
    exact hHits

/-- What is passed over in two steps, where the first one depends on how the text goes on. -/
theorem PassesOver.append_append {u : List Char} (ha : p.PassesOver last a (b ++ (u ++ s)))
    (hb : p.PassesOver (lastOf last a) (b ++ u) s) : p.PassesOver last (a ++ (b ++ u)) s := by
  rw [← List.append_assoc] at ha
  exact ha.append hb

/-- What takes word characters only is found before or behind characters that are none. -/
theorem occursIn_append_marks {g : List Char} (hp : p.Forward) (hAvoids : p.Avoids fun d => !Text.isWordChar d)
    (hRefuses : p.Refuses fun d => !Text.isWordChar d) (hNonempty : g ≠ [])
    (hg : ∀ d ∈ g, Text.isWordChar d = false) (a s : List Char) :
    p.occursIn (a ++ (g ++ s)) = (p.occursIn a || p.occursIn s) := by
  have hMarks : ∀ d ∈ g, (!Text.isWordChar d) = true := fun d hd => by rw [hg d hd]; rfl
  have hHead : ∀ d ∈ (g ++ s).head?, (!Text.isWordChar d) = true := fun d hd => by
    rw [List.head?_append_of_ne_nil _ hNonempty] at hd
    exact hMarks d (List.mem_of_mem_head? hd)
  rw [occursIn, find, findFrom_append_of_avoids hAvoids a hHead, findFrom_append (hRefuses.passesOver hMarks),
    hp.findFrom_eq _ none s, Option.isSome_or, Option.isSome_map]
  rfl

/-! ## Keywords and the blanks after them -/

theorem hits_keyword_nil (h : IsKeyword word) (last : Option Char) : (keyword word.toList).hits last [] = [] := by
  obtain ⟨l, ls, hLetters⟩ := List.exists_cons_of_ne_nil h.1
  rw [hLetters]
  rfl

theorem hits_blanks_eq_nil (hs : ∀ d ∈ s.head?, Text.isBlank d = false) (last : Option Char) :
    blanks.hits last s = [] := by
  cases s with
  | nil => rfl
  | cons d s => simp [blanks, hits, runHits, hs d rfl]

/-- A pattern that takes no blanks, and blanks after it, are settled at the last one of these. -/
theorem settledBefore_append_blanks (hp : p.Avoids Text.isBlank) (hc : Text.isBlank c = true)
    (hs : ∀ d ∈ s.head?, Text.isBlank d = false) : (p ++ blanks).SettledBefore c s :=
  (settledBefore_of_avoids hp hc s).append (settledBefore_many .longest c hs) (hits_blanks_eq_nil hs) fun _ => rfl

/-- The same with a pattern behind the blanks that does not begin where the text goes on. -/
theorem settledBefore_append_blanks_append (hp : p.Avoids Text.isBlank) (hq : q.Avoids Text.isBlank)
    (hc : Text.isBlank c = true) (hs : ∀ d ∈ s.head?, Text.isBlank d = false) (hNone : ∀ last, q.hits last s = [])
    (hNil : ∀ last, q.hits last [] = []) : ((p ++ blanks) ++ q).SettledBefore c s :=
  (settledBefore_append_blanks hp hc hs).append (settledBefore_of_avoids hq hc s) hNone hNil

/-! ## Words that are passed over -/

/-- Blanks that may be missing, and no pattern behind them. -/
theorem hits_blanks_append_gap (g : Gap) (hq : q.Refuses Text.isBlank) (hs : ∀ d ∈ s.head?, Text.isBlank d = false)
    (hNone : ∀ last, q.hits last s = []) (last : Option Char) : (blanks ++ q).hits last (g.text ++ s) = [] := by
  by_cases hGap : g.text = []
  · rw [hGap, List.nil_append]
    exact hits_append_eq_nil (hits_blanks_eq_nil hs last)
  · rw [blanks, takes_many hGap g.blank hs hq, hNone, List.map_nil]

/-- A keyword that blanks must follow passes over a word behind which the pattern does not go on. -/
theorem passesOver_word_of_hits_eq_nil (h : IsKeyword other) (hw : ∀ d ∈ w, Text.isWordChar d = true)
    (hs : ∀ d ∈ s.head?, Text.isWordChar d = false) (hNone : ∀ last, (blanks ++ q).hits last s = [])
    (last : Option Char) : (keyword other.toList ++ (blanks ++ q)).PassesOver last w s := by
  have hBlanks : (blanks ++ q).Refuses Text.isWordChar :=
    (refuses_many fun d hd => Text.isBlank_of_isWordChar hd).append q
  exact passesOver_word h.1 (fun l hl _ hd => Text.isWordChar_of_sameLetter (h.2 l hl) hd) hw hs hBlanks hNone

/-- Either a blank comes next, or blanks are not found there. -/
theorem isBlank_head_or_hits_eq_nil (q : Pattern) (s : List Char) :
    (∀ d ∈ s.head?, Text.isBlank d = true) ∨ ∀ last, (blanks ++ q).hits last s = [] := by
  cases s with
  | nil => exact .inl (by simp)
  | cons d s =>
    by_cases hd : Text.isBlank d = true
    · exact .inl (by simpa using hd)
    · exact .inr fun last => hits_append_eq_nil (hits_blanks_eq_nil (by simpa using hd) last)

/-- A keyword that blanks must follow passes over a word that does not end in it. -/
theorem passesOver_word_of_endsIn (h : IsKeyword other) (hw : ∀ d ∈ w, Text.isWordChar d = true)
    (hs : ∀ d ∈ s.head?, Text.isWordChar d = false) (hEnds : endsIn other.toList w = false) (q : Pattern)
    (last : Option Char) : (keyword other.toList ++ (blanks ++ q)).PassesOver last w s := by
  rcases isBlank_head_or_hits_eq_nil q s with hBlank | hNone
  · exact passesOver_of_endsIn (noBlanks_of_isAlpha h.2) (fun d hd => Text.isBlank_of_isWordChar (hw d hd)) hBlank
      hEnds q last
  · exact passesOver_word_of_hits_eq_nil h hw hs hNone last

/-- At the edge of a word, it passes over a word that does not spell it. -/
theorem passesOver_word_of_not_spells (h : IsKeyword other) (hw : ∀ d ∈ w, Text.isWordChar d = true)
    (hs : ∀ d ∈ s.head?, Text.isWordChar d = false) (hNot : ¬ Spells other.toList w) (q : Pattern)
    (last : Option Char) : (atWordEdge ++ (keyword other.toList ++ (blanks ++ q))).PassesOver last w s := by
  rcases isBlank_head_or_hits_eq_nil q s with hBlank | hNone
  · exact passesOver_of_not_spells (noBlanks_of_isAlpha h.2) hw hBlank hNot q last
  · exact (passesOver_word_of_hits_eq_nil h hw hs hNone last).atWordEdge_append

/-- It passes over another keyword, when that does not end in it. -/
theorem passesOver_spelling (hWord : IsKeyword word) (hOther : IsKeyword other)
    (h : ¬ other.toList.map Text.lowerAscii <:+ word.toList.map Text.lowerAscii) (v : Spelling word)
    (hs : ∀ d ∈ s.head?, Text.isWordChar d = false) (q : Pattern) (last : Option Char) :
    (keyword other.toList ++ (blanks ++ q)).PassesOver last v.text s := by
  refine passesOver_word_of_endsIn hOther (v.isWordChar hWord) hs ?_ q last
  rw [← Bool.not_eq_true]
  exact fun hEnds => h (isSuffix_of_endsIn hOther.2 hWord.2 hEnds v.spells)

end SqlSurvey.Pattern
